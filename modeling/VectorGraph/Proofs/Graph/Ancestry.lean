import VectorGraph.Proofs.Graph.Order

/-!
Graphs that agree on the ancestry of a node.

The check for cycles looks at nothing but the nodes upstream of the target and at what feeds them. Two graphs that are
alike in this (`Graph.FedAlike`) get the same answer, defect included, however they differ elsewhere
(`FedAlike.checkAcyclic`). The searches have different fuel if the graphs have different numbers of nodes, but neither
runs out of it.

Graphs with the same nodes upstream of the target and the same edges to them are such graphs (`Graph.AgreesAbove`).
-/
namespace VectorGraph.Graph

variable {g h : Graph} {target u v : Label}

theorem hasNode_eq (g : Graph) (v : Label) : g.hasNode v = (g.node? v).isSome := by
  rw [hasNode, node?, List.isSome_find?]

/-! ## The check for cycles on both -/

/-- Upstream of the target `h` has the nodes that `g` has, and each has the same sources. -/
structure FedAlike (g h : Graph) (target : Label) : Prop where
  hasNode : ∀ v, g.Upstream v target → h.hasNode v = g.hasNode v
  sources : ∀ v, g.Upstream v target → h.sourcesOf v = g.sourcesOf v

/-- Searches from one node with different fuel find the same. -/
def SearchesAlike (g h : Graph) (fuel fuel' : Nat) (path : List Label) (node : Label) : Prop :=
  ∀ done, h.search fuel' path done node = g.search fuel path done node

namespace FedAlike

variable (alike : g.FedAlike h target)

include alike

/-- What is looked at for a source is the same, if the search goes on from it alike. -/
theorem trySource {fuel fuel' : Nat} {path : List Label} {node source : Label} (up : g.Upstream node target)
    (feeds : g.Feeds source node) (done : List Label)
    (onward : g.hasNode source = true → source ∉ node :: path → SearchesAlike g h fuel fuel' (node :: path) source) :
    h.trySource fuel' path node done source = g.trySource fuel path node done source := by
  rw [Graph.trySource, Graph.trySource, alike.hasNode source (.head feeds up)]
  by_cases there : g.hasNode source = true
  · by_cases off : source ∈ node :: path
    · rw [if_pos (List.contains_iff_mem.mpr off), if_pos (List.contains_iff_mem.mpr off)]
    · rw [onward there off done]
  · rw [Bool.not_eq_true] at there
    rw [there, Bool.not_false, if_pos rfl, if_pos rfl]

theorem search (fuel : Nat) : ∀ (fuel' : Nat) (path : List Label) (node : Label),
    g.UnderSearch target fuel path node → h.UnderSearch target fuel' path node →
    SearchesAlike g h fuel fuel' path node := by
  induction fuel with
  | zero => exact fun _ _ _ under => absurd rfl under.ne_zero
  | succ fuel ih =>
    intro fuel' path node under under' done
    obtain ⟨fuel', rfl⟩ := Nat.exists_eq_succ_of_ne_zero under'.ne_zero
    have up := under.upstream node List.mem_cons_self
    have sources := alike.sources node up
    -- every source is looked at alike, in whatever state the search comes to it
    have each : ∀ source, g.Feeds source node → ∀ done,
        h.trySource fuel' path node done source = g.trySource fuel path node done source := by
      intro source feeds done
      refine alike.trySource up feeds done fun there off => ?_
      have there' : h.hasNode source = true := (alike.hasNode source (.head feeds up)).trans there
      have feeds' : h.Feeds source node := by
        rw [Feeds, sources]
        exact feeds
      exact ih fuel' (node :: path) source (under.next feeds there off) (under'.next feeds' there' off)
    rw [search_succ, search_succ, sources, foldlM_eq each]

/-- The check for cycles gives the same answer. -/
theorem checkAcyclic : h.checkAcyclic target = g.checkAcyclic target := by
  have same := alike.hasNode target .refl
  rw [Graph.checkAcyclic, Graph.checkAcyclic, same]
  by_cases there : g.hasNode target = true
  · rw [alike.search _ _ [] target (.start there) (.start (same.trans there)) []]
  · rw [Bool.not_eq_true] at there
    rw [there, Bool.not_false, if_pos rfl, if_pos rfl]

end FedAlike

/-! ## Graphs with the same ancestry -/

/-- The target and its ancestors are the same nodes in `h` as in `g`, and the edges to each of them are the same, in the
same order. -/
structure AgreesAbove (g h : Graph) (target : Label) : Prop where
  nodes : ∀ v, v = target ∨ v ∈ g.ancestors target → h.node? v = g.node? v
  edges : ∀ v, v = target ∨ v ∈ g.ancestors target →
    h.edges.filter (·.target == v) = g.edges.filter (·.target == v)

namespace AgreesAbove

variable (agree : g.AgreesAbove h target)

include agree

theorem node? (up : g.Upstream v target) : h.node? v = g.node? v := agree.nodes v (upstream_iff.mp up)

theorem inputsOf (up : g.Upstream v target) : h.inputsOf v = g.inputsOf v := by
  rw [Graph.inputsOf, Graph.inputsOf, agree.edges v (upstream_iff.mp up)]

theorem fedAlike : g.FedAlike h target where
  hasNode v up := by rw [hasNode_eq, hasNode_eq, agree.node? up]
  sources v up := by rw [sourcesOf, sourcesOf, agree.inputsOf up]

end AgreesAbove

end VectorGraph.Graph
