import Mathlib.Data.List.Nodup
import VectorGraph.Proofs.Graph.Dependents
import VectorGraph.Proofs.Results

/-!
Graphs that are built up by edits.

A graph is well formed if no id is used twice, if the ends of every edge are nodes, and if no two edges lead to the same
socket of a node (`Graph.Wellformed`). Adding nodes, adding edges and setting parameters keeps it so, and an edge that
is refused leaves the graph as it was: whatever edits are made of the empty graph, the result is well formed
(`edits_wellformed`).
-/
namespace VectorGraph.Graph

variable {g g' : Graph} {v : Label} {e : Edge}

/-! ## Edits -/

/-- The ways in which a graph is edited. -/
inductive Edit where
  | addNode (n : Node)
  | addEdge (e : Edge)
  | connect (source target targetSocket sourceSocket : Label)
  | updateParams (id : Label) (updates : Fields)

/-- What an edit makes of a graph, unless it is refused. -/
def attempt (g : Graph) : Edit → Except Failure Graph
  | .addNode n => .ok (g.addNode n)
  | .addEdge e => (g.addEdge e).mapError .graph
  | .connect source target targetSocket sourceSocket =>
    (g.connect source target targetSocket sourceSocket).mapError .graph
  | .updateParams id updates =>
    match g.updateParams id updates with
    | some g' => .ok g'
    | none => .error .missingEntry

/-- The graph after an edit; an edit that is refused changes nothing. -/
def edited (g : Graph) (edit : Edit) : Graph :=
  match g.attempt edit with
  | .ok g' => g'
  | .error _ => g

/-- What is true of a graph, and remains true whenever an edit is made, is true after any number of edits. -/
theorem foldl_edited {P : Graph → Prop} {edits : List Edit}
    (kept : ∀ edit ∈ edits, ∀ g g', P g → g.attempt edit = .ok g' → P g') (outset : P g) : P (edits.foldl edited g) := by
  refine List.foldlRecOn edits edited outset fun g hg edit mem => ?_
  unfold edited
  split
  · next g' made => exact kept edit mem g g' hg made
  · exact hg

/-! ## Well-formed graphs -/

/-- Two edges do not lead to the same socket of a node. -/
def Apart (old e : Edge) : Prop := old.target = e.target → old.targetSocket.isSame e.targetSocket = false

/-- An edge that fits into a graph: its ends are nodes, and the socket it leads to is free. -/
structure Takes (g : Graph) (e : Edge) : Prop where
  source : g.hasNode e.source = true
  target : g.hasNode e.target = true
  free : ∀ old ∈ g.edges, Apart old e

/-- No id is used twice, edges lead from nodes to nodes, and no two of them to the same socket of a node. -/
structure Wellformed (g : Graph) : Prop where
  distinct : (g.nodes.map (·.id)).Nodup
  ends : ∀ e ∈ g.edges, g.hasNode e.source = true ∧ g.hasNode e.target = true
  single : g.edges.Pairwise Apart

/-- The graph with a node put after the others. -/
def withNode (g : Graph) (n : Node) : Graph := { g with nodes := g.nodes ++ [n] }

/-- The graph with an edge put after the others. -/
def withEdge (g : Graph) (e : Edge) : Graph := { g with edges := g.edges ++ [e] }

theorem addNode_of_new {n : Node} (new : g.hasNode n.id = false) : g.addNode n = g.withNode n :=
  if_neg (by simp [new])

theorem hasNode_withNode {n : Node} : (g.withNode n).hasNode v = false ↔ g.hasNode v = false ∧ n.id ≠ v := by
  simp [withNode, hasNode]

theorem takes_withEdge {x : Edge} : (g.withEdge e).Takes x ↔ g.Takes x ∧ Apart e x := by
  constructor
  · intro takes
    refine ⟨⟨takes.source, takes.target, fun old mem => takes.free old (List.mem_append_left _ mem)⟩, ?_⟩
    exact takes.free e (List.mem_append_right _ (List.mem_singleton_self e))
  · rintro ⟨takes, apart⟩
    refine ⟨takes.source, takes.target, fun old mem => ?_⟩
    rcases List.mem_append.mp mem with old' | new
    · exact takes.free old old'
    · rwa [List.mem_singleton.mp new]

theorem hasNode_congr (nodes : g'.nodes.map (·.id) = g.nodes.map (·.id)) (v : Label) : g'.hasNode v = g.hasNode v := by
  rw [Bool.eq_iff_iff, hasNode_iff, hasNode_iff, nodes]

/-- An edge is added if and only if it fits in. -/
theorem addEdge_eq_ok_iff : g.addEdge e = .ok g' ↔ g.Takes e ∧ g' = g.withEdge e := by
  have taken : (g.edges.any fun old => old.target == e.target && old.targetSocket.isSame e.targetSocket) = false ↔
      ∀ old ∈ g.edges, Apart old e := by
    simp [List.any_eq_false, Apart]
  unfold addEdge
  split
  · next absent => exact ⟨(nofun), fun ⟨fits, _⟩ => by simp [fits.source] at absent⟩
  · next source =>
    split
    · next absent => exact ⟨(nofun), fun ⟨fits, _⟩ => by simp [fits.target] at absent⟩
    · next target =>
      simp only [Bool.not_eq_true', Bool.not_eq_false] at source target
      split
      · next full =>
        refine ⟨(nofun), fun ⟨fits, _⟩ => ?_⟩
        rw [taken.mpr fits.free] at full
        cases full
      · next free =>
        rw [Bool.not_eq_true, taken] at free
        exact ⟨fun h => ⟨⟨source, target, free⟩, (Except.ok.inj h).symm⟩, fun ⟨_, h⟩ => h ▸ rfl⟩

/-- Parameters are set if and only if the node is there. -/
theorem updateParams_eq_some_iff {updates : Fields} :
    g.updateParams v updates = some g' ↔
      g.hasNode v = true ∧ g' = { g with nodes := g.nodes.map (setParams v updates) } := by
  unfold updateParams
  split
  · next there => exact ⟨fun h => ⟨there, (Option.some.inj h).symm⟩, fun h => congrArg some h.2.symm⟩
  · next absent => exact ⟨(nofun), fun h => absurd h.1 absent⟩

/-- What each edit makes of a graph, where it is not refused. -/
inductive Makes (g : Graph) : Edit → Graph → Prop where
  | addNode (n : Node) : Makes g (.addNode n) (g.addNode n)
  | addEdge {e : Edge} (takes : g.Takes e) : Makes g (.addEdge e) (g.withEdge e)
  | connect {source target targetSocket sourceSocket : Label}
      (takes : g.Takes ⟨source, sourceSocket, target, targetSocket⟩) :
      Makes g (.connect source target targetSocket sourceSocket)
        (g.withEdge ⟨source, sourceSocket, target, targetSocket⟩)
  | updateParams {id : Label} {updates : Fields} (there : g.hasNode id = true) :
      Makes g (.updateParams id updates) { g with nodes := g.nodes.map (setParams id updates) }

theorem makes_of_attempt {edit : Edit} (made : g.attempt edit = .ok g') : g.Makes edit g' := by
  cases edit with
  | addNode n => exact Except.ok.inj made ▸ .addNode n
  | addEdge e =>
    obtain ⟨takes, rfl⟩ := addEdge_eq_ok_iff.mp (mapError_eq_ok_iff.mp made)
    exact .addEdge takes
  | connect source target targetSocket sourceSocket =>
    obtain ⟨takes, rfl⟩ := addEdge_eq_ok_iff.mp (mapError_eq_ok_iff.mp made)
    exact .connect takes
  | updateParams id updates =>
    simp only [Graph.attempt] at made
    split at made
    · next updated =>
      obtain ⟨there, rfl⟩ := updateParams_eq_some_iff.mp updated
      exact Except.ok.inj made ▸ .updateParams there
    · cases made

namespace Wellformed

theorem empty : Graph.empty.Wellformed := ⟨.nil, (nofun), .nil⟩

/-- Every node is stored under its own id, and nothing else is. -/
theorem node?_eq_some_iff (h : g.Wellformed) {n : Node} : g.node? v = some n ↔ n ∈ g.nodes ∧ n.id = v := by
  constructor
  · intro found
    exact ⟨List.mem_of_find?_eq_some found, Graph.node?_id found⟩
  · rintro ⟨mem, rfl⟩
    obtain ⟨m, found, same⟩ := exists_node (hasNode_iff.mpr (List.mem_map_of_mem mem))
    rw [found, List.inj_on_of_nodup_map h.distinct (List.mem_of_find?_eq_some found) mem same]

/-- Changes of nodes that keep the ids keep a graph well formed. -/
theorem of_nodes (h : g.Wellformed) (nodes : g'.nodes.map (·.id) = g.nodes.map (·.id)) (edges : g'.edges = g.edges) :
    g'.Wellformed where
  distinct := nodes ▸ h.distinct
  ends := by
    intro e mem
    rw [hasNode_congr nodes, hasNode_congr nodes]
    exact h.ends e (edges ▸ mem)
  single := edges ▸ h.single

theorem addNode (h : g.Wellformed) (n : Node) : (g.addNode n).Wellformed := by
  unfold Graph.addNode
  split
  · refine h.of_nodes ?_ rfl
    rw [List.map_map]
    refine List.map_congr_left fun old _ => ?_
    by_cases same : old.id = n.id
    · simp [same]
    · simp [same]
  · next absent =>
    have new : n.id ∉ g.nodes.map (·.id) := mt hasNode_iff.mpr absent
    refine ⟨?_, fun e mem => ?_, h.single⟩
    · rw [List.map_append, List.nodup_append]
      refine ⟨h.distinct, List.nodup_singleton _, fun id mem other single => ?_⟩
      rw [List.map_singleton, List.mem_singleton] at single
      rintro rfl
      exact new (single ▸ mem)
    · have still : ∀ v, g.hasNode v = true → Graph.hasNode { g with nodes := g.nodes ++ [n] } v = true := by
        intro v there
        simp only [hasNode, List.any_append, Bool.or_eq_true]
        exact .inl there
      exact ⟨still _ (h.ends e mem).1, still _ (h.ends e mem).2⟩

theorem withEdge (h : g.Wellformed) (takes : g.Takes e) : (g.withEdge e).Wellformed where
  distinct := h.distinct
  ends := by
    intro x mem
    rcases List.mem_append.mp mem with old | new
    · exact h.ends x old
    · rw [List.mem_singleton.mp new]
      exact ⟨takes.source, takes.target⟩
  single := by
    refine List.pairwise_append.mpr ⟨h.single, List.pairwise_singleton _ _, fun old mem x new => ?_⟩
    rw [List.mem_singleton.mp new]
    exact takes.free old mem

theorem setParams (h : g.Wellformed) (id : Label) (updates : Fields) :
    Graph.Wellformed { g with nodes := g.nodes.map (Graph.setParams id updates) } := by
  refine h.of_nodes ?_ rfl
  rw [List.map_map]
  exact List.map_congr_left fun old _ => setParams_id id updates old

/-- Every edit that is made keeps a graph well formed. -/
theorem attempt (h : g.Wellformed) {edit : Edit} (made : g.attempt edit = .ok g') : g'.Wellformed := by
  cases makes_of_attempt made with
  | addNode n => exact h.addNode n
  | addEdge takes => exact h.withEdge takes
  | connect takes => exact h.withEdge takes
  | @updateParams id updates there => exact h.setParams id updates

end Wellformed

/-- Whatever edits are made of the empty graph, the result is well formed. -/
theorem edits_wellformed (edits : List Edit) : (edits.foldl edited Graph.empty).Wellformed :=
  foldl_edited (fun _ _ _ _ h made => h.attempt made) .empty

end VectorGraph.Graph
