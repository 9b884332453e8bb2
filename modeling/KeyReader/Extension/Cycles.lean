import KeyReader.DepthFirst
import KeyReader.Extension.Operations

/-! The two checks for cycles of dependencies, that over all manifests and the host's from one
extension, are exact and end on every graph. -/

namespace KeyReader.Extension

open Std DepthFirst Relation List

section

variable (edges : ExtTreeMap String (List String))

def edgeTargets (node : String) : List String :=
  edges[node]?.getD []

/-- The visits of `directed_cycle`, an error where one returns true.  The fuel bounds their depth. -/
def directedCycleVisits (fuel : Nat) : Except Unit (List String × List String) :=
  edges.keys.foldlM (visit (edgeTargets edges) true (fun _ => ()) fuel) ([], [])

def directedCycle : Bool :=
  !(directedCycleVisits edges (edges.size + 1)).isOk

theorem edgeTargets_eq_nil : ∀ node, node ∉ edges.keys → edgeTargets edges node = [] := by
  intro node hnode
  rw [ExtTreeMap.mem_keys] at hnode
  rw [edgeTargets, ExtTreeMap.getElem?_eq_none hnode, Option.getD_none]

theorem directedCycle_iff :
    directedCycle edges = true ↔ ∃ node, TransGen (Edge (edgeTargets edges)) node node := by
  have hsearch := (search_exact true (fun _ => ()) (edgeTargets_eq_nil edges)
    (ExtTreeMap.length_keys.trans_lt (Nat.lt_succ_self edges.size)) edges.keys).2
  have hexact : directedCycle edges = true ↔
      ∃ error, directedCycleVisits edges (edges.size + 1) = .error error := by
    unfold directedCycle
    cases directedCycleVisits edges (edges.size + 1) <;> simp [Except.isOk, Except.toBool]
  rw [hexact, directedCycleVisits, hsearch]
  constructor
  · rintro ⟨-, -, knot, -, hcycle⟩
    exact ⟨knot, hcycle⟩
  · rintro ⟨node, hcycle⟩
    obtain ⟨target, hedge, -⟩ := TransGen.head'_iff.mp hcycle
    refine ⟨node, ?_, node, .refl, hcycle⟩
    by_contra hnode
    rw [Edge, edgeTargets_eq_nil edges node hnode] at hedge
    cases hedge

end

/-- One pass of the loop of `validate_dependency_graph`, which leaves out the dependencies that are
not installed. -/
def addEdges (installed : List ExtensionId) (edges : ExtTreeMap String (List String))
    (manifest : ExtensionManifest) : ExtTreeMap String (List String) :=
  edges.insert manifest.id (edgeTargets edges manifest.id ++
    (manifest.dependencies.map (·.id)).filter (· ∈ installed))

section

variable (manifests : List ExtensionManifest)

def dependencyEdges : ExtTreeMap String (List String) :=
  manifests.foldl (addEdges (manifests.map (·.id))) ∅

/-- An installed manifest depends on another. -/
def DependsOn (source target : ExtensionId) : Prop :=
  (∃ manifest ∈ manifests, manifest.id = source ∧ target ∈ manifest.dependencies.map (·.id)) ∧
    target ∈ manifests.map (·.id)

theorem edge_dependencyEdges :
    Edge (edgeTargets (dependencyEdges manifests)) = DependsOn manifests := by
  have h (installed : List ExtensionId) (source target : ExtensionId)
      (rest : List ExtensionManifest) : ∀ edges : ExtTreeMap String (List String),
        target ∈ edgeTargets (rest.foldl (addEdges installed) edges) source ↔
          target ∈ edgeTargets edges source ∨ (∃ manifest ∈ rest, manifest.id = source ∧
            target ∈ manifest.dependencies.map (·.id)) ∧ target ∈ installed := by
    induction rest with
    | nil => simp
    | cons manifest rest ih =>
      intro edges
      rw [foldl_cons, ih, addEdges, edgeTargets, OrderedMap.getElem?_insert]
      split_ifs with hid
      · simp [hid, exists_or, or_and_right, or_assoc]
      · simp [hid, edgeTargets]
  funext source target
  exact propext ((h _ source target manifests ∅).trans (by simp [edgeTargets, DependsOn]))

end

namespace ExtensionHost

variable {G : Type} (host : ExtensionHost G)

/-- An installed extension depends on another. -/
def DependsOn (source target : ExtensionId) : Prop :=
  (∃ record, host.registry[source]? = some record ∧
    target ∈ record.manifest.dependencies.map (·.id)) ∧ target ∈ host.registry

def dependencyTargets (extension : ExtensionId) : List ExtensionId :=
  host.registry[extension]?.elim [] fun record =>
    (record.manifest.dependencies.map (·.id)).filter (host.registry.contains ·)

theorem edge_dependencyTargets : Edge host.dependencyTargets = host.DependsOn := by
  funext source target
  unfold Edge dependencyTargets DependsOn
  cases host.registry[source]? <;> simp

theorem dependencyTargets_eq_nil :
    ∀ node, node ∉ host.registry.keys → host.dependencyTargets node = [] := by
  intro node hnode
  rw [ExtTreeMap.mem_keys] at hnode
  rw [dependencyTargets, ExtTreeMap.getElem?_eq_none hnode, Option.elim_none]

theorem checkDependencyCycle_eq (fuel : Nat) :
    host.checkDependencyCycle fuel = visit host.dependencyTargets false
      (fun extension => .dependencyUnavailable extension extension "dependency cycle") fuel := by
  induction fuel with
  | zero => rfl
  | succ fuel ih =>
    funext ⟨visiting, visited⟩ extension
    rw [checkDependencyCycle, visit, ih]
    split_ifs <;> first | rfl | simp_all

end ExtensionHost

/-- Each check fails exactly at the cycles that it is to find, and more fuel than the number of
nodes changes nothing: the recursion ends by itself. -/
theorem cycle_checks_exact {G : Type} : (∀ edges : ExtTreeMap String (List String),
      (directedCycle edges = true ↔ ∃ node, TransGen (Edge (edgeTargets edges)) node node) ∧
      ∀ more, directedCycleVisits edges (edges.size + 1 + more) =
        directedCycleVisits edges (edges.size + 1)) ∧
    (∀ manifests, directedCycle (dependencyEdges manifests) = true ↔
      ∃ extension, TransGen (DependsOn manifests) extension extension) ∧
    ∀ (host : ExtensionHost G) (extension : ExtensionId),
      ((∃ error, host.checkDependencyCycle (host.registry.size + 1) ([], []) extension =
          .error error) ↔
        ∃ other, ReflTransGen host.DependsOn extension other ∧
          TransGen host.DependsOn other other) ∧
      ∀ more, host.checkDependencyCycle (host.registry.size + 1 + more) ([], []) extension =
        host.checkDependencyCycle (host.registry.size + 1) ([], []) extension := by
  refine ⟨fun edges => ⟨directedCycle_iff edges, ?_⟩, fun manifests => ?_, fun host extension => ?_⟩
  · exact (search_exact true _ (edgeTargets_eq_nil edges)
      (ExtTreeMap.length_keys.trans_lt (Nat.lt_succ_self edges.size)) edges.keys).1
  · rw [directedCycle_iff, edge_dependencyEdges]
  · have hexact := search_exact false
      (fun extension => HostError.dependencyUnavailable extension extension "dependency cycle")
      host.dependencyTargets_eq_nil
      (ExtTreeMap.length_keys.trans_lt (Nat.lt_succ_self host.registry.size)) [extension]
    simpa [host.checkDependencyCycle_eq, Cyclic, host.edge_dependencyTargets, and_comm] using hexact

end KeyReader.Extension
