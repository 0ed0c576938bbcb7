import VectorGraph.Proofs.Graph.Order

/-!
What depends on a node.

`Graph.Drives` is one step along an edge. The nodes that `Graph.descendants` collects are those to which such steps lead
from the node, on any graph (`mem_descendants`). What a change of some nodes may concern are these nodes and their
descendants (`Graph.Touches`); the sources of a node that is not concerned are not concerned either. Setting parameters
leaves the edges alone, and all other nodes (`updateAll_frame`).
-/
namespace VectorGraph.Graph

variable {g : Graph} {u v w : Label}

/-! ## What depends on a node -/

/-- There is an edge from `u` to `v`. -/
def Drives (g : Graph) (u v : Label) : Prop := v ∈ g.outputsOf u

theorem drives_iff : g.Drives u v ↔ ∃ e ∈ g.edges, e.source = u ∧ e.target = v := by
  simp [Drives, outputsOf, and_assoc]

theorem mem_setSocket {sockets : List (Label × Label)} {socket source : Label} {i : Label × Label}
    (h : i ∈ setSocket sockets socket source) : i ∈ sockets ∨ i.2 = source := by
  unfold setSocket at h
  split at h
  · obtain ⟨old, there, rfl⟩ := List.mem_map.mp h
    split
    · exact .inr rfl
    · exact .inl there
  · exact (List.mem_append.mp h).imp_right fun new => by rw [List.mem_singleton.mp new]

/-- What is in a socket was there, or comes from one of the edges. -/
theorem mem_foldl_setSocket (edges : List Edge) : ∀ (sockets : List (Label × Label)), ∀ i ∈
    edges.foldl (fun sockets e => setSocket sockets e.targetSocket e.source) sockets,
    i ∈ sockets ∨ ∃ e ∈ edges, e.source = i.2 := by
  induction edges with
  | nil => exact fun _ _ there => .inl there
  | cons e rest ih =>
    intro sockets i there
    rcases ih _ i there with there | ⟨e', mem, source⟩
    · rcases mem_setSocket there with old | new
      · exact .inl old
      · exact .inr ⟨e, List.mem_cons_self, new.symm⟩
    · exact .inr ⟨e', List.mem_cons_of_mem _ mem, source⟩

/-- There is an edge from every source of a node, although not every edge makes its source one. -/
theorem Feeds.drives (h : g.Feeds u v) : g.Drives u v := by
  obtain ⟨i, there, rfl⟩ := List.mem_map.mp h
  rcases mem_foldl_setSocket _ _ i there with none_ | ⟨e, mem, source⟩
  · cases none_
  · obtain ⟨mem, target⟩ := List.mem_filter.mp mem
    exact drives_iff.mpr ⟨e, mem, source, beq_iff_eq.mp target⟩

/-- Sources are a matter of the edges. -/
theorem feeds_of_edges {g' : Graph} (edges : g'.edges = g.edges) : g'.Feeds = g.Feeds := by
  funext u v
  rw [Feeds, Feeds, sourcesOf, sourcesOf, inputsOf, inputsOf, edges]

/-- The descendants of a node are the nodes to which a path of at least one edge leads from it. -/
theorem mem_descendants : v ∈ g.descendants u ↔ Relation.TransGen g.Drives u v := by
  have bound : ∀ w, (g.outputsOf w).length ≤ (g.edges.filter (·.source == w)).length := fun w => by
    rw [outputsOf, List.length_map]
  exact (mem_reach bound).trans Relation.transGen_swap

/-- The node is one of those that are changed, or depends on one of them. -/
def Touches (g : Graph) (changed : List Label) (v : Label) : Prop := ∃ s ∈ changed, v = s ∨ v ∈ g.descendants s

/-- Where a source is touched the node is. -/
theorem Touches.onward {changed : List Label} (h : g.Touches changed u) (feeds : g.Feeds u v) : g.Touches changed v := by
  obtain ⟨s, there, same | depends⟩ := h
  · subst same
    exact ⟨u, there, .inr (mem_descendants.mpr (.single feeds.drives))⟩
  · exact ⟨s, there, .inr (mem_descendants.mpr ((mem_descendants.mp depends).tail feeds.drives))⟩

theorem touches_singleton {n : Label} : g.Touches [n] v ↔ v = n ∨ v ∈ g.descendants n := by
  simp [Touches]

/-! ## Parameters that are set -/

/-- What becomes of a node when parameters of the node `id` are set. -/
def setParams (id : Label) (updates : Fields) (n : Node) : Node :=
  if n.id == id then { n with params := Json.mergeFields n.params updates } else n

@[simp]
theorem setParams_id (id : Label) (updates : Fields) (n : Node) : (setParams id updates n).id = n.id := by
  unfold setParams
  split <;> rfl

theorem find?_setParams (nodes : List Node) (id : Label) (updates : Fields) (v : Label) :
    (nodes.map (setParams id updates)).find? (·.id == v) =
      (nodes.find? (·.id == v)).map (setParams id updates) := by
  rw [List.find?_map]
  congr 2
  funext n
  simp

/-- Setting parameters leaves the edges alone, and all nodes but one. -/
theorem updateParams_frame {g' : Graph} {id : Label} {updates : Fields} (h : g.updateParams id updates = some g') :
    g'.edges = g.edges ∧ ∀ v, v ≠ id → g'.node? v = g.node? v := by
  unfold updateParams at h
  split at h
  · obtain rfl := Option.some.inj h
    refine ⟨rfl, fun v other => (find?_setParams g.nodes id updates v).trans ?_⟩
    rw [node?]
    cases hn : g.nodes.find? (·.id == v) with
    | none => rfl
    | some n =>
      have same : n.id = v := by simpa using List.find?_some hn
      have unchanged : setParams id updates n = n := by simp [setParams, same, other]
      rw [Option.map_some, unchanged]
  · cases h

/-- Sets parameters of several nodes, one after another. -/
def updateAll (g : Graph) (edits : List (Label × Fields)) : Option Graph :=
  edits.foldlM (fun g edit => g.updateParams edit.1 edit.2) g

/-- Setting parameters leaves the edges alone, and all nodes that are not named. -/
theorem updateAll_frame {edits : List (Label × Fields)} {g' : Graph} (h : g.updateAll edits = some g') :
    g'.edges = g.edges ∧ ∀ v, v ∉ edits.map (·.1) → g'.node? v = g.node? v := by
  induction edits generalizing g with
  | nil =>
    obtain rfl := Option.some.inj h
    exact ⟨rfl, fun _ _ => rfl⟩
  | cons edit edits ih =>
    rw [updateAll, List.foldlM_cons] at h
    obtain ⟨g₁, first, rest⟩ := Option.bind_eq_some_iff.mp h
    obtain ⟨edges, nodes⟩ := updateParams_frame first
    obtain ⟨edges', nodes'⟩ := ih rest
    refine ⟨edges'.trans edges, fun v other => ?_⟩
    rw [List.map_cons, List.mem_cons, not_or] at other
    exact (nodes' v other.2).trans (nodes v other.1)

end VectorGraph.Graph
