import KeyReader.Extension.Manifest
import KeyReader.OrderedMap
import KeyReader.Precedence
import Mathlib.Data.List.Sort
import Mathlib.Data.Prod.Lex
import Mathlib.Data.String.Basic

/-! The order of the contributions of a slot and of the items of a menu. -/

namespace KeyReader.Extension.Ordering

open Precedence Relation Std List Function

structure ContributionOrder where
  priority : Int
  before : List String
  after : List String

/-- For each index of a group the indices that come after it, and how many indices hold it back. -/
structure Graph (n : Nat) where
  edges : Fin n → Finset (Fin n)
  indegree : Fin n → Nat

namespace Graph

variable {n : Nat}

def empty : Graph n := ⟨fun _ => ∅, fun _ => 0⟩

/-- A constraint that is stated twice counts once. -/
def link (graph : Graph n) (link : Fin n × Fin n) : Graph n :=
  if link.2 ∈ graph.edges link.1 then graph
  else
    { edges := update graph.edges link.1 (insert link.2 (graph.edges link.1))
      indegree := update graph.indegree link.2 (graph.indegree link.2 + 1) }

/-- The remaining indices that nothing holds back. -/
def ready (indegree : Fin n → Nat) (remaining : List (Fin n)) : List (Fin n) :=
  remaining.filter fun index => indegree index = 0

/-- Where everything is held back the choice is among all of the remaining indices. -/
def choices (indegree : Fin n → Nat) (remaining : List (Fin n)) : List (Fin n) :=
  if (ready indegree remaining).isEmpty then remaining else ready indegree remaining

theorem mem_of_mem_choices {indegree : Fin n → Nat} {remaining : List (Fin n)} {index : Fin n}
    (h : index ∈ choices indegree remaining) : index ∈ remaining := by
  unfold choices at h
  split at h
  · exact h
  · exact mem_of_mem_filter h

theorem choices_eq_nil {indegree : Fin n → Nat} {remaining : List (Fin n)}
    (h : choices indegree remaining = []) : remaining = [] := by
  unfold choices at h
  split at h
  · exact h
  · rename_i hready
    exact absurd (isEmpty_iff.mpr h) hready

/-- An index counts those of the remaining indices that hold it back. -/
def Counts (edges : Fin n → Finset (Fin n)) (indegree : Fin n → Nat) (remaining : List (Fin n)) :
    Prop :=
  ∀ target, indegree target = remaining.countP fun source => target ∈ edges source

theorem mem_link {graph : Graph n} {link : Fin n × Fin n} {source target : Fin n} :
    target ∈ (graph.link link).edges source ↔
      target ∈ graph.edges source ∨ link = (source, target) := by
  obtain ⟨first, second⟩ := link
  unfold Graph.link
  split
  · rename_i hmem
    refine ⟨.inl, ?_⟩
    rintro (h | h)
    · exact h
    · cases h
      exact hmem
  · by_cases heq : source = first
    · subst heq
      simp [or_comm, eq_comm]
    · simp [heq, Ne.symm heq]

theorem mem_links {graph : Graph n} {links : List (Fin n × Fin n)} {source target : Fin n} :
    target ∈ (links.foldl link graph).edges source ↔
      target ∈ graph.edges source ∨ (source, target) ∈ links := by
  induction links generalizing graph with
  | nil => simp
  | cons first links ih =>
    rw [foldl_cons, ih, mem_link, mem_cons, or_assoc, eq_comm (a := first)]

theorem countP_insert {indices : List (Fin n)} {edges : Fin n → Finset (Fin n)}
    {source target : Fin n} (hnodup : indices.Nodup) (hsource : source ∈ indices)
    (hnew : target ∉ edges source) :
    (indices.countP fun index =>
        target ∈ update edges source (insert target (edges source)) index) =
      (indices.countP fun index => target ∈ edges index) + 1 := by
  have hperm := perm_cons_erase hsource
  rw [hperm.countP_eq, hperm.countP_eq, countP_cons_of_pos (by simp),
    countP_cons_of_neg (by simpa using hnew)]
  refine congrArg (· + 1) (countP_congr fun index hindex => ?_)
  rw [update_of_ne (hnodup.mem_erase_iff.mp hindex).1]

theorem counts_link {graph : Graph n} {indices : List (Fin n)} (hnodup : indices.Nodup)
    (hall : ∀ index, index ∈ indices) (h : Counts graph.edges graph.indegree indices)
    (link : Fin n × Fin n) :
    Counts (graph.link link).edges (graph.link link).indegree indices := by
  obtain ⟨source, target⟩ := link
  unfold Graph.link
  split
  · exact h
  rename_i hnew
  intro other
  dsimp only at hnew ⊢
  by_cases heq : other = target
  · subst heq
    rw [update_self, h, countP_insert hnodup (hall source) hnew]
  · rw [update_of_ne heq, h]
    refine countP_congr fun index _ => ?_
    by_cases hsource : index = source
    · subst hsource
      simp [heq]
    · simp [hsource]

theorem counts_links {graph : Graph n} {indices : List (Fin n)} (hnodup : indices.Nodup)
    (hall : ∀ index, index ∈ indices) (h : Counts graph.edges graph.indegree indices)
    (links : List (Fin n × Fin n)) :
    Counts (links.foldl link graph).edges (links.foldl link graph).indegree indices := by
  induction links generalizing graph with
  | nil => exact h
  | cons first links ih => exact ih (counts_link hnodup hall h first)

theorem Counts.erase {edges : Fin n → Finset (Fin n)} {indegree : Fin n → Nat}
    {remaining : List (Fin n)} {selected : Fin n} (h : Counts edges indegree remaining)
    (hmem : selected ∈ remaining) :
    Counts edges
      (fun target => if target ∈ edges selected then indegree target - 1 else indegree target)
      (remaining.erase selected) := by
  intro target
  have hcount := h target
  rw [(perm_cons_erase hmem).countP_eq, countP_cons] at hcount
  dsimp only
  split <;> simp_all

end Graph

section Arrange

variable {α : Type} (id : α → String) (order : α → ContributionOrder)

section

variable (items : List α)

/-- The index that a name stands for among the items of a group. -/
def byId : ExtTreeMap String (Fin items.length) :=
  .ofList ((List.finRange items.length).map fun index => (id items[index], index))

/-- The constraints of an item on the items of its group that they name. -/
def links (index : Fin items.length) : List (Fin items.length × Fin items.length) :=
  ((order items[index]).before.filterMap fun target => (byId id items)[target]?).map (index, ·) ++
    ((order items[index]).after.filterMap fun source => (byId id items)[source]?).map (·, index)

def graph : Graph items.length :=
  ((List.finRange items.length).flatMap (links id order items)).foldl Graph.link .empty

/-- The comparison of `sort_by`: the higher priority first, `then_with` the smaller name. -/
def precedes (left right : α) : Bool :=
  (order right).priority < (order left).priority ||
    ((order right).priority = (order left).priority && id left ≤ id right)

/-- The loop over the remaining indices. -/
def arrange (items : List α) (edges : Fin items.length → Finset (Fin items.length))
    (indegree : Fin items.length → Nat) (remaining : List (Fin items.length)) : List α × Bool :=
  match hsorted : (Graph.choices indegree remaining).insertionSort fun left right =>
      precedes id order items[left] items[right] with
  | [] => ([], false)
  | selected :: _ =>
    let rest := arrange items edges
      (fun target => if target ∈ edges selected then indegree target - 1 else indegree target)
      (remaining.erase selected)
    (items[selected] :: rest.1, (Graph.ready indegree remaining).isEmpty || rest.2)
termination_by remaining.length
decreasing_by
  have hmem := Graph.mem_of_mem_choices ((mem_insertionSort _).mp (hsorted ▸ mem_cons_self))
  have hpos := length_pos_of_mem hmem
  rw [length_erase_of_mem hmem]
  omega

/-- The body that `stable_order` runs for each group and `sort_menu_tree` for each level. -/
def arranged : List α × Bool :=
  arrange id order items (graph id order items).edges (graph id order items).indegree
    (List.finRange items.length)

end

/-- A constraint of either item puts the first one before the other. -/
def Before (earlier later : α) : Prop :=
  id later ∈ (order earlier).before ∨ id earlier ∈ (order later).after

def rank (item : α) : Int ×ₗ String := toLex (-(order item).priority, id item)

variable {id order} {items : List α}

theorem precedes_iff {left right : α} :
    precedes id order left right ↔ rank id order left ≤ rank id order right := by
  rw [precedes, Bool.or_eq_true, Bool.and_eq_true, decide_eq_true_iff, decide_eq_true_iff,
    decide_eq_true_iff, Prod.Lex.le_iff]
  change _ ↔ -(order left).priority < -(order right).priority ∨
    -(order left).priority = -(order right).priority ∧ id left ≤ id right
  rw [Int.neg_lt_neg_iff, Int.neg_inj, eq_comm]

section

variable (hunique : (items.map id).Nodup)

include hunique

theorem injOn_rank : Set.InjOn (rank id order) {item | item ∈ items} := by
  intro left hleft right hright heq
  exact inj_on_of_nodup_map hunique hleft hright (congrArg (fun rank => (ofLex rank).2) heq)

theorem index_inj {left right : Fin items.length}
    (heq : id items[left] = id items[right]) : left = right := by
  have hitems : items[left] = items[right] :=
    inj_on_of_nodup_map hunique (getElem_mem _) (getElem_mem _) heq
  exact Fin.ext ((List.Nodup.getElem_inj_iff (List.Nodup.of_map _ hunique)).mp hitems)

theorem byId_eq_some {name : String} {index : Fin items.length} :
    (byId id items)[name]? = some index ↔ id items[index] = name := by
  have hentry (index : Fin items.length) : (byId id items)[id items[index]]? = some index := by
    refine ExtTreeMap.getElem?_ofList_of_mem (Std.ReflCmp.compare_self) ?_
      (mem_map_of_mem (mem_finRange index))
    rw [pairwise_map]
    exact (nodup_finRange _).imp fun hne heq =>
      hne (index_inj hunique (Std.LawfulEqCmp.eq_of_compare heq))
  constructor
  · intro h
    have hmem : name ∈ byId id items := ExtTreeMap.mem_iff_isSome_getElem?.mpr (by rw [h]; rfl)
    obtain ⟨other, rfl⟩ : ∃ other : Fin items.length, id items[other] = name := by
      simpa [byId, ExtTreeMap.mem_ofList] using hmem
    rw [hentry] at h
    rw [Option.some.inj h]
  · rintro rfl
    exact hentry index

theorem mem_edges_graph {earlier later : Fin items.length} :
    later ∈ (graph id order items).edges earlier ↔
      Before id order items[earlier] items[later] := by
  have hnames (names : List String) (index : Fin items.length) :
      index ∈ names.filterMap (fun name => (byId id items)[name]?) ↔ id items[index] ∈ names := by
    simp only [mem_filterMap, byId_eq_some hunique]
    exact ⟨fun ⟨_, hmem, h⟩ => h ▸ hmem, fun hmem => ⟨_, hmem, rfl⟩⟩
  rw [graph, Graph.mem_links, mem_flatMap]
  simp only [links, mem_append, mem_map, hnames, Graph.empty, Finset.notMem_empty,
    false_or, mem_finRange, true_and, Prod.mk.injEq]
  constructor
  · rintro ⟨index, ⟨other, hother, rfl, rfl⟩ | ⟨other, hother, rfl, rfl⟩⟩
    · exact .inl hother
    · exact .inr hother
  · rintro (h | h)
    · exact ⟨earlier, .inl ⟨later, h, rfl, rfl⟩⟩
    · exact ⟨later, .inr ⟨earlier, h, rfl, rfl⟩⟩

end

theorem counts_graph (items : List α) : Graph.Counts (graph id order items).edges
    (graph id order items).indegree (List.finRange items.length) :=
  Graph.counts_links (nodup_finRange _) mem_finRange
    (fun _ => (countP_eq_zero.mpr fun _ _ => by simp [Graph.empty]).symm) _

variable {edges : Fin items.length → Finset (Fin items.length)} {indegree : Fin items.length → Nat}
  {remaining : List (Fin items.length)}

def itemsAt (items : List α) (indices : List (Fin items.length)) : List α :=
  indices.map fun index => items[index]

theorem itemsAt_finRange (items : List α) : itemsAt items (List.finRange items.length) = items :=
  map_getElem_finRange items

theorem mem_itemsAt {indices : List (Fin items.length)} {item : α} :
    item ∈ itemsAt items indices ↔ ∃ index ∈ indices, items[index] = item := mem_map

theorem arrange_perm (edges : Fin items.length → Finset (Fin items.length))
    (indegree : Fin items.length → Nat) (remaining : List (Fin items.length)) :
    (arrange id order items edges indegree remaining).1.Perm (itemsAt items remaining) := by
  fun_induction arrange id order items edges indegree remaining with
  | case1 indegree remaining hsorted =>
    obtain rfl := Graph.choices_eq_nil (perm_nil.mp (hsorted ▸ (perm_insertionSort _ _).symm))
    exact .nil
  | case2 indegree remaining selected later hsorted rest ih =>
    have hmem : selected ∈ remaining := Graph.mem_of_mem_choices
      ((mem_insertionSort _).mp (hsorted ▸ mem_cons_self))
    exact (ih.cons items[selected]).trans ((perm_cons_erase hmem).map _).symm

theorem free_eq
    (hedges : ∀ earlier later, later ∈ edges earlier ↔ Before id order items[earlier] items[later])
    (hcounts : Graph.Counts edges indegree remaining) :
    Free (Before id order) {item | item ∈ itemsAt items remaining} =
      {item | item ∈ itemsAt items (Graph.ready indegree remaining)} := by
  ext item
  simp only [Free, Set.mem_ofPred_eq, mem_itemsAt, Graph.ready, mem_filter, decide_eq_true_iff,
    hcounts _, countP_eq_zero, hedges]
  constructor
  · rintro ⟨⟨index, hindex, rfl⟩, hfree⟩
    exact ⟨index, ⟨hindex, fun source hsource => hfree _ ⟨source, hsource, rfl⟩⟩, rfl⟩
  · rintro ⟨index, ⟨hindex, hfree⟩, rfl⟩
    refine ⟨⟨index, hindex, rfl⟩, ?_⟩
    rintro _ ⟨source, hsource, rfl⟩
    exact hfree source hsource

theorem first_choice {choices later : List (Fin items.length)} {selected : Fin items.length}
    (h : (choices.insertionSort fun left right => precedes id order items[left] items[right]) =
      selected :: later) :
    First (rank id order) {item | item ∈ itemsAt items choices} items[selected] := by
  have hmem (index : Fin items.length) : index ∈ choices ↔ index ∈ selected :: later := by
    rw [← h, mem_insertionSort]
  have hsorted : (selected :: later).Pairwise fun left right =>
      rank id order items[left] ≤ rank id order items[right] := by
    simp only [precedes_iff] at h
    rw [← h]
    exact pairwise_insertionSort _ _
  refine ⟨mem_itemsAt.mpr ⟨selected, (hmem _).mpr mem_cons_self, rfl⟩, fun other hother => ?_⟩
  obtain ⟨index, hindex, rfl⟩ := mem_itemsAt.mp hother
  rcases mem_cons.mp ((hmem _).mp hindex) with rfl | hlater
  · exact le_rfl
  · exact (pairwise_cons.mp hsorted).1 index hlater

/-- The loop follows the rule over the items of the remaining indices. -/
theorem arranges_arrange (hunique : (items.map id).Nodup)
    (hedges : ∀ earlier later, later ∈ edges earlier ↔ Before id order items[earlier] items[later])
    (hcounts : Graph.Counts edges indegree remaining) (hnodup : remaining.Nodup) :
    Arranges (Before id order) (rank id order) {item | item ∈ itemsAt items remaining}
      (arrange id order items edges indegree remaining).1
      (arrange id order items edges indegree remaining).2 := by
  fun_induction arrange id order items edges indegree remaining with
  | case1 indegree remaining hsorted =>
    obtain rfl := Graph.choices_eq_nil (perm_nil.mp (hsorted ▸ (perm_insertionSort _ _).symm))
    simpa [itemsAt] using Arranges.nil
  | case2 indegree remaining selected later hsorted rest ih =>
    have hfirst := first_choice hsorted
    have hmem : selected ∈ remaining := Graph.mem_of_mem_choices
      ((mem_insertionSort _).mp (hsorted ▸ mem_cons_self))
    have hrest := ih (hcounts.erase hmem) (hnodup.erase selected)
    have hset : {item | item ∈ itemsAt items (remaining.erase selected)} =
        {item | item ∈ itemsAt items remaining} \ {items[selected]} := by
      ext item
      simp only [Set.mem_ofPred_eq, mem_itemsAt, hnodup.mem_erase_iff, Set.mem_sdiff,
        Set.mem_singleton_iff]
      constructor
      · rintro ⟨index, ⟨hne, hindex⟩, rfl⟩
        exact ⟨⟨index, hindex, rfl⟩, fun heq => hne (index_inj hunique (congrArg id heq))⟩
      · rintro ⟨⟨index, hindex, rfl⟩, hne⟩
        exact ⟨index, ⟨fun heq => hne (heq ▸ rfl), hindex⟩, rfl⟩
    rw [hset] at hrest
    unfold Graph.choices at hfirst
    split at hfirst
    · rename_i hready
      rw [hready, Bool.true_or]
      refine .held ?_ hfirst hrest
      rw [free_eq hedges hcounts, isEmpty_iff.mp hready]
      simp [itemsAt]
    · rename_i hready
      rw [Bool.eq_false_of_not_eq_true hready, Bool.false_or]
      exact .free (free_eq hedges hcounts ▸ hfirst) hrest

theorem arranges_arranged (hunique : (items.map id).Nodup) :
    Arranges (Before id order) (rank id order) {item | item ∈ items}
      (arranged id order items).1 (arranged id order items).2 := by
  have hedges (earlier later : Fin items.length) : later ∈ (graph id order items).edges earlier ↔
        Before id order items[earlier] items[later] := mem_edges_graph hunique
  have h := arranges_arrange hunique hedges (counts_graph items) (nodup_finRange _)
  rwa [itemsAt_finRange] at h

theorem arranged_perm (id : α → String) (order : α → ContributionOrder) (items : List α) :
    (arranged id order items).1.Perm items := by
  have h := @arrange_perm _ id order items (graph id order items).edges
    (graph id order items).indegree (List.finRange items.length)
  rwa [itemsAt_finRange] at h

theorem arranged_eq {others : List α} (hunique : (items.map id).Nodup) (h : others.Perm items) :
    arranged id order others = arranged id order items := by
  have hothers := @arranges_arranged _ id order _ ((h.map id).nodup_iff.mpr hunique)
  simp only [h.mem_iff] at hothers
  obtain ⟨horder, hstuck⟩ :=
    Arranges.unique (injOn_rank hunique) hothers (arranges_arranged hunique)
  exact Prod.ext horder hstuck

end Arrange

section StableOrder

variable {α : Type} (id : α → String) (order : α → ContributionOrder) (group : α → String)

def groups (items : List α) : ExtTreeMap String (List α) :=
  items.foldl
    (fun groups item => groups.insert (group item) (groups.getD (group item) [] ++ [item])) ∅

def stableOrder (items : List α) : List α × Bool :=
  let ordered := (groups group items).toList.map fun entry => arranged id order entry.2
  (ordered.flatMap (·.1), ordered.any (·.2))

/-- The constraints that `stable_order` reads: both items are in one group. -/
def Constrains (items : List α) (earlier later : α) : Prop :=
  earlier ∈ items ∧ later ∈ items ∧ group earlier = group later ∧ Before id order earlier later

def members (items : List α) (name : String) : List α := items.filter fun item => group item = name

variable {id order group} {items : List α} {item : α}

theorem mem_members {name : String} :
    item ∈ members group items name ↔ item ∈ items ∧ group item = name := by
  simp [members]

theorem getElem?_groups (name : String) : (groups group items)[name]? =
    if (members group items name).isEmpty then none else some (members group items name) := by
  induction items using reverseRecOn generalizing name with
  | nil => rfl
  | append_singleton items item ih =>
    have hgetD : (groups group items).getD (group item) [] = members group items (group item) := by
      rw [ExtTreeMap.getD_eq_getD_getElem?, ih]
      split
      · rename_i hempty
        exact (isEmpty_iff.mp hempty).symm
      · rfl
    rw [groups, foldl_concat, OrderedMap.getElem?_insert, members, filter_append, filter_cons]
    change (if _ then some ((groups group items).getD _ _ ++ _) else (groups group items)[name]?) = _
    rw [hgetD, ih]
    split
    · rename_i heq
      subst heq
      simp [members]
    · rename_i hne
      simp [members, hne]

theorem stableOrder_eq : stableOrder id order group items =
    let ordered := ((groups group items).map fun _ items => arranged id order items).toList
    (ordered.flatMap (·.2.1), ordered.any (·.2.2)) := by
  simp only [stableOrder, ExtTreeMap.toList_map, flatMap_map, any_map, comp_def]

theorem mem_groups_toList {name : String} {found : List α} :
    (name, found) ∈ (groups group items).toList ↔
      found ≠ [] ∧ found = members group items name := by
  rw [OrderedMap.mem_toList_iff, getElem?_groups]
  split
  · rename_i hempty
    simp [isEmpty_iff.mp hempty]
  · rename_i hsome
    rw [Option.some.injEq, eq_comm, iff_and_self]
    rintro rfl hnil
    exact hsome (isEmpty_iff.mpr hnil)

theorem mem_stableOrder : item ∈ (stableOrder id order group items).1 ↔ item ∈ items := by
  simp only [stableOrder, flatMap_map, mem_flatMap, Prod.exists, mem_groups_toList,
    (arranged_perm ..).mem_iff]
  constructor
  · rintro ⟨name, found, ⟨-, rfl⟩, hmem⟩
    exact (mem_members.mp hmem).1
  · intro hmem
    have hmem : item ∈ members group items (group item) := mem_members.mpr ⟨hmem, rfl⟩
    exact ⟨group item, _, ⟨ne_nil_of_mem hmem, rfl⟩, hmem⟩

theorem nodup_stableOrder (hunique : items.Nodup) : (stableOrder id order group items).1.Nodup := by
  rw [stableOrder, flatMap_map, nodup_flatMap]
  constructor
  · rintro ⟨name, found⟩ hentry
    obtain ⟨-, rfl⟩ := mem_groups_toList.mp hentry
    exact (arranged_perm ..).nodup_iff.mpr (hunique.filter _)
  · refine List.Pairwise.imp_of_mem ?_ (@ExtTreeMap.ordered_keys_toList _ _ _ (groups group items) _)
    rintro ⟨left, _⟩ ⟨right, _⟩ hleft hright hlt item hmem hmem'
    obtain ⟨-, rfl⟩ := mem_groups_toList.mp hleft
    obtain ⟨-, rfl⟩ := mem_groups_toList.mp hright
    have hname := (mem_members.mp ((arranged_perm ..).mem_iff.mp hmem)).2
    obtain rfl := hname.symm.trans (mem_members.mp ((arranged_perm ..).mem_iff.mp hmem')).2
    cases (Std.ReflCmp.compare_self).symm.trans hlt

theorem stableOrder_perm (hunique : items.Nodup) :
    (stableOrder id order group items).1.Perm items :=
  (perm_ext_iff_of_nodup (nodup_stableOrder hunique) hunique).mpr fun _ => mem_stableOrder

theorem stableOrder_congr {others : List α} (hunique : (items.map id).Nodup)
    (h : others.Perm items) :
    stableOrder id order group others = stableOrder id order group items := by
  rw [stableOrder_eq, stableOrder_eq]
  suffices hmaps : ((groups group others).map fun _ items => arranged id order items) =
      (groups group items).map fun _ items => arranged id order items by rw [hmaps]
  refine ExtTreeMap.ext_getElem? fun name => ?_
  have hmembers : (members group others name).Perm (members group items name) := h.filter _
  rw [ExtTreeMap.getElem?_map, ExtTreeMap.getElem?_map, getElem?_groups, getElem?_groups,
    hmembers.isEmpty_eq]
  split
  · rfl
  · have hsublist : ((members group items name).map id).Sublist (items.map id) :=
      filter_sublist.map id
    rw [Option.map_some, Option.map_some, arranged_eq (hunique.sublist hsublist) hmembers]

theorem within_members {name : String} {earlier later : α} :
    Within (Before id order) {item | item ∈ members group items name} earlier later ↔
      Constrains id order group items earlier later ∧ group earlier = name := by
  simp only [Within, Constrains, Set.mem_ofPred_eq, mem_members]
  constructor
  · rintro ⟨⟨hearlier, rfl⟩, ⟨hlater, heq⟩, hbefore⟩
    exact ⟨⟨hearlier, hlater, heq.symm, hbefore⟩, rfl⟩
  · rintro ⟨⟨hearlier, hlater, heq, hbefore⟩, rfl⟩
    exact ⟨⟨hearlier, rfl⟩, ⟨hlater, heq.symm⟩, hbefore⟩

theorem path_within {earlier later : α}
    (h : TransGen (Constrains id order group items) earlier later) :
    group later = group earlier ∧ TransGen
      (Within (Before id order) {item | item ∈ members group items (group earlier)})
      earlier later := by
  induction h with
  | single h => exact ⟨h.2.2.1.symm, .single (within_members.mpr ⟨h, rfl⟩)⟩
  | tail _ h ih =>
    exact ⟨h.2.2.1.symm.trans ih.1, ih.2.tail (within_members.mpr ⟨h, ih.1⟩)⟩

section

variable (hunique : (items.map id).Nodup)

include hunique

theorem arranges_members (name : String) :
    Arranges (Before id order) (rank id order) {item | item ∈ members group items name}
      (arranged id order (members group items name)).1
      (arranged id order (members group items name)).2 :=
  arranges_arranged (hunique.sublist (filter_sublist.map id))

theorem stableOrder_cycle_iff : (stableOrder id order group items).2 = true ↔
      ∃ item, TransGen (Constrains id order group items) item item := by
  simp only [stableOrder, any_map, any_eq_true, comp_apply, Prod.exists]
  constructor
  · rintro ⟨name, found, hentry, hstuck⟩
    obtain ⟨-, rfl⟩ := mem_groups_toList.mp hentry
    obtain ⟨item, hitem⟩ := (arranges_members hunique name).stuck_iff.mp hstuck
    exact ⟨item, TransGen.mono (fun _ _ h => (within_members.mp h).1) _ _ hitem⟩
  · rintro ⟨item, hitem⟩
    obtain ⟨_, hstep, -⟩ := TransGen.head'_iff.mp hitem
    have hmem : item ∈ members group items (group item) := mem_members.mpr ⟨hstep.1, rfl⟩
    exact ⟨group item, _, mem_groups_toList.mpr ⟨ne_nil_of_mem hmem, rfl⟩,
      (arranges_members hunique _).stuck_iff.mpr ⟨item, (path_within hitem).2⟩⟩

theorem stableOrder_respects (hcycle : (stableOrder id order group items).2 = false)
    {earlier later : α} (h : Constrains id order group items earlier later) :
    [earlier, later].Sublist (stableOrder id order group items).1 := by
  have hmem : earlier ∈ members group items (group earlier) := mem_members.mpr ⟨h.1, rfl⟩
  have hentry : (group earlier, members group items (group earlier)) ∈
      (groups group items).toList := mem_groups_toList.mpr ⟨ne_nil_of_mem hmem, rfl⟩
  have harranges := @arranges_members _ id order group items hunique (group earlier)
  have hfree : (arranged id order (members group items (group earlier))).2 = false := by
    rw [stableOrder, any_map, any_eq_false] at hcycle
    simpa using hcycle _ hentry
  rw [hfree] at harranges
  refine (harranges.respects (within_members.mpr ⟨h, rfl⟩)).trans ?_
  rw [stableOrder, flatMap_map, flatMap_def]
  exact sublist_flatten_of_mem (mem_map_of_mem hentry)

end

end StableOrder

inductive BooleanSource
  | constant (value : Bool)
  | binding (binding : StateBinding)

inductive IconRef
  | host (name : String)
  | asset (path : String)

mutual

inductive MenuItem
  | mk (id : String) (order : ContributionOrder) (visible : BooleanSource) (kind : MenuItemKind)

inductive MenuItemKind
  | command (label : String) (command : CommandId) (payload : Option DataValue)
      (icon : Option IconRef) (enabled : BooleanSource) (checked : Option BooleanSource)
  | submenu (label : String) (icon : Option IconRef) (children : List MenuItem)
  | separator

end

namespace MenuItem

def id : MenuItem → String
  | mk id _ _ _ => id

def order : MenuItem → ContributionOrder
  | mk _ order _ _ => order

inductive Rearranged : MenuItem → MenuItem → Prop
  | same (item : MenuItem) : Rearranged item item
  | submenu (id : String) (order : ContributionOrder) (visible : BooleanSource) (label : String)
      (icon : Option IconRef) {children changed sorted : List MenuItem}
      (below : List.Forall₂ Rearranged children changed) (level : changed.Perm sorted) :
      Rearranged (mk id order visible (.submenu label icon children))
        (mk id order visible (.submenu label icon sorted))

end MenuItem

/-- Each item of a menu stays in its level, below the same items. -/
def KeepsLevels (items sorted : List MenuItem) : Prop :=
  ∃ changed, List.Forall₂ MenuItem.Rearranged items changed ∧ changed.Perm sorted

def sortMenuTree (items : List MenuItem) : List MenuItem × Bool :=
  let sorted := items.map fun item =>
    match _hitem : item with
    | .mk id order visible (.submenu label icon children) =>
      let below := sortMenuTree children
      (MenuItem.mk id order visible (.submenu label icon below.1), below.2)
    | item => (item, false)
  let level := arranged MenuItem.id MenuItem.order (sorted.map (·.1))
  (level.1, sorted.any (·.2) || level.2)
termination_by sizeOf items
decreasing_by
  have hlt := sizeOf_lt_of_mem ‹_ ∈ items›
  rw [_hitem, MenuItem.mk.sizeOf_spec, MenuItemKind.submenu.sizeOf_spec] at hlt
  omega

theorem keepsLevels_sortMenuTree (items : List MenuItem) :
    KeepsLevels items (sortMenuTree items).1 := by
  rw [sortMenuTree]
  refine ⟨_, ?_, (arranged_perm ..).symm⟩
  rw [forall₂_map_right_iff, forall₂_map_right_iff, forall₂_same]
  intro item hmem
  split
  · rename_i id order visible label icon children
    obtain ⟨changed, hbelow, hlevel⟩ := keepsLevels_sortMenuTree children
    exact .submenu id order visible label icon hbelow hlevel
  · exact .same item
termination_by sizeOf items
decreasing_by
  have hlt := sizeOf_lt_of_mem hmem
  rw [MenuItem.mk.sizeOf_spec, MenuItemKind.submenu.sizeOf_spec] at hlt
  omega

structure MenuContribution where
  id : String
  slot : String
  order : ContributionOrder
  items : List MenuItem

structure OwnedMenu where
  owner : ExtensionId
  menu : MenuContribution
  state : Fields

def orderOwnedMenus (menus : List OwnedMenu) : List OwnedMenu × Bool :=
  stableOrder (·.menu.id) (·.menu.order) (·.menu.slot) menus

/-- For any items with different names, the constraints between items of one group are respected
unless they have a cycle, which is reported; the order of the input does not matter, and the items of
a menu stay in their levels. -/
theorem stableOrder_sorts {α : Type} {id : α → String} {order : α → ContributionOrder}
    {group : α → String} {items : List α} (hunique : (items.map id).Nodup) :
    (stableOrder id order group items).1.Perm items ∧
      ((∀ item, ¬TransGen (Constrains id order group items) item item) →
        (∀ earlier later, Constrains id order group items earlier later →
          [earlier, later].Sublist (stableOrder id order group items).1) ∧
        (stableOrder id order group items).2 = false) ∧
      ((stableOrder id order group items).2 = true ↔
        ∃ item, TransGen (Constrains id order group items) item item) ∧
      (∀ others : List α, others.Perm items →
        stableOrder id order group others = stableOrder id order group items) ∧
      ∀ menu : List MenuItem, KeepsLevels menu (sortMenuTree menu).1 := by
  refine ⟨stableOrder_perm (.of_map id hunique), fun hacyclic => ?_,
    stableOrder_cycle_iff hunique, fun _ => stableOrder_congr hunique, keepsLevels_sortMenuTree⟩
  have hcycle : (stableOrder id order group items).2 = false := by
    rw [Bool.eq_false_iff, Ne, stableOrder_cycle_iff hunique]
    exact not_exists.mpr hacyclic
  exact ⟨fun _ _ => stableOrder_respects hunique hcycle, hcycle⟩

def printMenu : OwnedMenu :=
  ⟨"key.output", ⟨"key.output/print", "view.output", ⟨0, ["key.output/export"], []⟩, []⟩, []⟩

def exportMenu : OwnedMenu :=
  ⟨"key.output", ⟨"key.output/export", "file.output", ⟨0, [], []⟩, []⟩, []⟩

/-- A constraint on a contribution of another slot is passed over: the slots are ordered by their
names. -/
theorem orderOwnedMenus_across_slots : ([printMenu, exportMenu].map (·.menu.id)).Nodup ∧
      (∀ item, ¬TransGen (Within (Before (·.menu.id) (·.menu.order))
        {item | item ∈ [printMenu, exportMenu]}) item item) ∧
      Before (·.menu.id) (·.menu.order) printMenu exportMenu ∧
      ¬[printMenu, exportMenu].Sublist (orderOwnedMenus [printMenu, exportMenu]).1 := by
  refine ⟨by decide, fun item hitem => ?_, .inl (by decide), fun hsublist => ?_⟩
  · have hedge (earlier later : OwnedMenu) (h : Within (Before (·.menu.id) (·.menu.order))
        {item | item ∈ [printMenu, exportMenu]} earlier later) :
        earlier.menu.id = "key.output/print" ∧ later.menu.id = "key.output/export" := by
      obtain ⟨hearlier, hlater, hbefore⟩ := h
      simp only [Set.mem_ofPred_eq, mem_cons, not_mem_nil, or_false] at hearlier hlater
      rcases hearlier with rfl | rfl <;> rcases hlater with rfl | rfl <;>
        simp [Before, printMenu, exportMenu] at hbefore ⊢
    obtain ⟨_, hfirst, -⟩ := TransGen.head'_iff.mp hitem
    obtain ⟨_, -, hlast⟩ := TransGen.tail'_iff.mp hitem
    have heq := (hedge _ _ hfirst).1.symm.trans (hedge _ _ hlast).2
    revert heq
    decide
  · have hids := hsublist.map (·.menu.id)
    revert hids
    decide +kernel

theorem orderOwnedMenus_swap :
    orderOwnedMenus [exportMenu, printMenu] = orderOwnedMenus [printMenu, exportMenu] :=
  (stableOrder_sorts (by decide)).2.2.2.1 _ (.swap ..)

end KeyReader.Extension.Ordering
