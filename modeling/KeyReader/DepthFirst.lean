import Mathlib.Data.List.Perm.Subperm
import Mathlib.Logic.Relation

/-! A depth-first search for a cycle: it fails at a node that it is visiting already, and keeps the
nodes that it visited so as to visit none twice. -/

namespace KeyReader.DepthFirst

open List Relation

variable {α ε : Type} [DecidableEq α] (targets : α → List α)

/-- A visit of a node, with the nodes being visited and those that were.  It looks among the former
first where `strict` holds, and among the latter first where it does not. -/
def visit (strict : Bool) (cycle : α → ε) : Nat → List α × List α → α → Except ε (List α × List α)
  | 0, visits, _ => .ok visits
  | fuel + 1, (visiting, visited), node =>
    if node ∈ visiting ∧ (strict ∨ node ∉ visited) then .error (cycle node)
    else if node ∈ visited then .ok (visiting, visited)
    else do
      let (visiting, visited) ← (targets node).foldlM (visit strict cycle fuel)
        (node :: visiting, visited)
      .ok (visiting.filter (· ≠ node), node :: visited)

def Edge (source target : α) : Prop := target ∈ targets source

/-- A cycle can be reached from the node. -/
def Cyclic (node : α) : Prop :=
  ∃ knot, ReflTransGen (Edge targets) node knot ∧ TransGen (Edge targets) knot knot

/-- What visits of the nodes must come to: those visited before and now reach no cycle, and where
the visits fail, one of the nodes reaches one. -/
def Right (visits : List α × List α) (nodes : List α) : Except ε (List α × List α) → Prop
  | .error _ => ∃ node ∈ nodes, Cyclic targets node
  | .ok (visiting, visited) => visiting = visits.1 ∧ (∀ node ∈ visited, ¬Cyclic targets node) ∧
      visits.2 ⊆ visited ∧ nodes ⊆ visited

variable {targets} {node : α} {visiting visited : List α}

omit [DecidableEq α] in
theorem cyclic_iff : Cyclic targets node ↔ ∃ target ∈ targets node, Cyclic targets target := by
  constructor
  · rintro ⟨knot, hreach, hcycle⟩
    rcases hreach.cases_head with rfl | ⟨target, hedge, hreach⟩
    · obtain ⟨target, hedge, hreach⟩ := TransGen.head'_iff.mp hcycle
      exact ⟨target, hedge, node, hreach, hcycle⟩
    · exact ⟨target, hedge, knot, hreach, hcycle⟩
  · rintro ⟨target, hedge, knot, hreach, hcycle⟩
    exact ⟨knot, hreach.head hedge, hcycle⟩

omit [DecidableEq α] in
/-- Visits one after another come to what they must when each does, and two searches that agree on
each visit agree on all. -/
theorem foldlM_right {first second : List α × List α → α → Except ε (List α × List α)}
    (visiting nodes : List α) (hvisited : ∀ node ∈ visited, ¬Cyclic targets node)
    (h : ∀ node ∈ nodes, ∀ visited, (∀ node ∈ visited, ¬Cyclic targets node) →
      second (visiting, visited) node = first (visiting, visited) node ∧
        Right targets (visiting, visited) [node] (first (visiting, visited) node)) :
    nodes.foldlM second (visiting, visited) = nodes.foldlM first (visiting, visited) ∧
      Right targets (visiting, visited) nodes (nodes.foldlM first (visiting, visited)) := by
  induction nodes generalizing visited with
  | nil => exact ⟨rfl, rfl, hvisited, Subset.refl _, nil_subset _⟩
  | cons node nodes ih =>
    obtain ⟨hsame, hright⟩ := h node mem_cons_self visited hvisited
    rw [foldlM_cons, foldlM_cons, hsame]
    cases hnode : first (visiting, visited) node with
    | error error =>
      rw [hnode] at hright
      obtain ⟨other, hother, hcyclic⟩ := hright
      exact ⟨rfl, other, by simp_all, hcyclic⟩
    | ok visits =>
      obtain ⟨visiting, between⟩ := visits
      rw [hnode] at hright
      obtain ⟨rfl, hvisited, hbefore, hnow⟩ := hright
      obtain ⟨hsame, hright⟩ := ih hvisited (forall_mem_cons.mp h).2
      refine ⟨hsame, ?_⟩
      show Right _ _ _ (nodes.foldlM first (visiting, between))
      cases hrest : nodes.foldlM first (visiting, between) with
      | error error =>
        rw [hrest] at hright
        obtain ⟨other, hother, hcyclic⟩ := hright
        exact ⟨other, mem_cons_of_mem _ hother, hcyclic⟩
      | ok last =>
        rw [hrest] at hright
        obtain ⟨hvisiting, hlast, hvisits, hnodes⟩ := hright
        exact ⟨hvisiting, hlast, Subset.trans hbefore hvisits,
          cons_subset.mpr ⟨hvisits (hnow mem_cons_self), hnodes⟩⟩

variable (strict : Bool) (cycle : α → ε) {sources : List α}
  (hsources : ∀ node, node ∉ sources → targets node = [])

include hsources

/-- The nodes being visited lie on a way down to the node, are distinct and have edges, so the fuel
lasts to the bottom. -/
theorem visit_right (more fuel : Nat) (hnodup : visiting.Nodup) (hsubset : visiting ⊆ sources)
    (hfuel : sources.length < fuel + visiting.length)
    (hway : ∀ above ∈ visiting, TransGen (Edge targets) above node)
    (hvisited : ∀ node ∈ visited, ¬Cyclic targets node) :
    visit targets strict cycle (fuel + more) (visiting, visited) node =
        visit targets strict cycle fuel (visiting, visited) node ∧
      Right targets (visiting, visited) [node]
        (visit targets strict cycle fuel (visiting, visited) node) := by
  induction fuel generalizing visiting visited node with
  | zero =>
    have := (hnodup.subperm hsubset).length_le
    omega
  | succ fuel ih =>
    rw [Nat.add_right_comm, visit, visit]
    split_ifs with hvisiting hdone
    · exact ⟨rfl, node, mem_cons_self, node, .refl, hway node hvisiting.1⟩
    · exact ⟨rfl, rfl, hvisited, Subset.refl _, by simpa using hdone⟩
    have hfresh : node ∉ visiting := fun hmem => hvisiting ⟨hmem, .inr hdone⟩
    obtain ⟨hsame, hright⟩ := foldlM_right (node :: visiting) (targets node) hvisited
      fun target htarget visited hvisited => by
        have hnode : node ∈ sources := by
          by_contra hnode
          simp [hsources node hnode] at htarget
        refine ih (nodup_cons.mpr ⟨hfresh, hnodup⟩) (cons_subset.mpr ⟨hnode, hsubset⟩)
          (by rw [length_cons]; omega) ?_ hvisited
        rintro above (_ | ⟨_, habove⟩)
        · exact .single htarget
        · exact (hway above habove).tail htarget
    rw [hsame]
    refine ⟨rfl, ?_⟩
    cases hfold : (targets node).foldlM (visit targets strict cycle fuel)
      (node :: visiting, visited) with
    | error error =>
      rw [hfold] at hright
      exact ⟨node, mem_cons_self, cyclic_iff.mpr hright⟩
    | ok visits =>
      rw [hfold] at hright
      obtain ⟨hvisiting, hacyclic, hbefore, htargets⟩ := hright
      refine ⟨?_, ?_, fun _ h => mem_cons_of_mem _ (hbefore h), by simp⟩
      · show visits.1.filter _ = visiting
        rw [hvisiting, filter_cons_of_neg (by simp), filter_eq_self]
        exact fun other hother => decide_eq_true (ne_of_mem_of_not_mem hother hfresh)
      · rintro other (_ | ⟨_, hother⟩)
        · rw [cyclic_iff]
          exact fun ⟨target, htarget, hcyclic⟩ => hacyclic target (htargets htarget) hcyclic
        · exact hacyclic other hother

/-- A search from some nodes needs no more fuel than there are nodes with edges, and fails exactly
when a cycle can be reached from one of them. -/
theorem search_exact {fuel : Nat} (hfuel : sources.length < fuel) (nodes : List α) :
    (∀ more, nodes.foldlM (visit targets strict cycle (fuel + more)) ([], []) =
      nodes.foldlM (visit targets strict cycle fuel) ([], [])) ∧
    ((∃ error, nodes.foldlM (visit targets strict cycle fuel) ([], []) = .error error) ↔
      ∃ node ∈ nodes, Cyclic targets node) := by
  have h (more : Nat) := foldlM_right [] nodes
    (show ∀ node ∈ ([] : List α), ¬Cyclic targets node from nofun)
    fun _ _ _ hvisited => visit_right strict cycle hsources more fuel nodup_nil (nil_subset _)
      hfuel nofun hvisited
  refine ⟨fun more => (h more).1, ?_⟩
  have hright := (h 0).2
  cases hsearch : nodes.foldlM (visit targets strict cycle fuel) ([], []) with
  | error error =>
    rw [hsearch] at hright
    exact iff_of_true ⟨error, rfl⟩ hright
  | ok visits =>
    rw [hsearch] at hright
    exact iff_of_false nofun fun ⟨node, hnode, hcyclic⟩ =>
      hright.2.1 node (hright.2.2.2 hnode) hcyclic

end KeyReader.DepthFirst
