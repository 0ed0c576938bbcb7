import VectorGraph.Proofs.Graph.Acceptance

/-!
Graphs that are saved and loaded again.

A graph can be saved if it is well formed, its nodes are called by texts, and its sockets by texts that are not empty
(`Storable`): then the document of the graph is read as the graph itself (`ofDocument_toDocument`). Every graph that was
read from a document is of this sort, as long as the handles of the document are texts or null, and edits keep it so
that add nodes called by texts and edges between named sockets (`Edit.Proper`).
-/
namespace VectorGraph.Graph

variable {document entry : Json} {g g' : Graph} {e : Edge}

/-! ## Graphs that can be saved -/

/-- A socket that no default takes the place of. -/
def IsNamed (socket : Label) : Prop := ∃ s, s ≠ "" ∧ socket = .text s

/-- A graph whose document describes it. -/
structure Storable (g : Graph) : Prop extends g.Wellformed where
  texts : ∀ n ∈ g.nodes, ∃ s, n.id = .text s
  named : ∀ e ∈ g.edges, IsNamed e.sourceSocket ∧ IsNamed e.targetSocket

/-- An edit that names what it adds. -/
def Edit.Proper : Edit → Prop
  | .addNode n => ∃ s, n.id = .text s
  | .addEdge e => IsNamed e.sourceSocket ∧ IsNamed e.targetSocket
  | .connect _ _ targetSocket sourceSocket => IsNamed sourceSocket ∧ IsNamed targetSocket
  | .updateParams _ _ => True

namespace Storable

theorem empty : Graph.empty.Storable := ⟨.empty, (nofun), (nofun)⟩

theorem addNode (h : g.Storable) {n : Node} (text : ∃ s, n.id = .text s) : (g.addNode n).Storable := by
  have edges : (g.addNode n).edges = g.edges := by
    unfold Graph.addNode
    split <;> rfl
  refine ⟨h.toWellformed.addNode n, fun m mem => ?_, edges ▸ h.named⟩
  unfold Graph.addNode at mem
  split at mem
  · obtain ⟨old, there, rfl⟩ := List.mem_map.mp mem
    split
    · exact text
    · exact h.texts old there
  · rcases List.mem_append.mp mem with old | new
    · exact h.texts m old
    · exact List.mem_singleton.mp new ▸ text

theorem withEdge (h : g.Storable) (named : IsNamed e.sourceSocket ∧ IsNamed e.targetSocket) (takes : g.Takes e) :
    (g.withEdge e).Storable := by
  refine ⟨h.toWellformed.withEdge takes, h.texts, fun x mem => ?_⟩
  rcases List.mem_append.mp mem with old | new
  · exact h.named x old
  · exact List.mem_singleton.mp new ▸ named

theorem setParams (h : g.Storable) (id : Label) (updates : Fields) :
    Graph.Storable { g with nodes := g.nodes.map (Graph.setParams id updates) } := by
  refine ⟨h.toWellformed.setParams id updates, fun n mem => ?_, h.named⟩
  obtain ⟨old, there, rfl⟩ := List.mem_map.mp mem
  rw [setParams_id]
  exact h.texts old there

theorem attempt (h : g.Storable) {edit : Edit} (proper : edit.Proper) (made : g.attempt edit = .ok g') :
    g'.Storable := by
  cases makes_of_attempt made with
  | addNode n => exact h.addNode proper
  | addEdge takes => exact h.withEdge proper takes
  | connect takes => exact h.withEdge proper takes
  | @updateParams id updates there => exact h.setParams id updates

end Storable

/-! ## Graphs that were read -/

/-- The handles of all edges are texts or null. -/
def HandlesAreTexts (document : Json) : Prop :=
  ∀ entry ∈ itemsOf document "edges",
    IsTextOrNull (entry.get? "sourceHandle") ∧ IsTextOrNull (entry.get? "targetHandle")

theorem isNamed_socketUnder {key fallback : String} (h : fallback ≠ "") :
    IsNamed (.text (socketUnder entry key fallback)) := by
  refine ⟨_, ?_, rfl⟩
  unfold socketUnder
  split <;> assumption

theorem readNode_storable (h : g.Storable) (read : readNode g entry = .ok g') : g'.Storable := by
  have there : (entry.get? "id").isSome = true := by
    obtain ⟨_, found, -⟩ := bind_eq_ok.mp read
    exact isSome_of_required found
  rw [readNode_eq there] at read
  split at read
  · cases read
  · obtain ⟨kind, -, same⟩ := bind_eq_ok.mp read
    exact Except.ok.inj same ▸ h.addNode ⟨_, rfl⟩

theorem readEdge_storable
    (handles : IsTextOrNull (entry.get? "sourceHandle") ∧ IsTextOrNull (entry.get? "targetHandle")) (h : g.Storable)
    (read : readEdge g entry = .ok g') : g'.Storable := by
  have form : EdgeForm entry := by
    obtain ⟨_, source, rest⟩ := bind_eq_ok.mp read
    obtain ⟨_, target, -⟩ := bind_eq_ok.mp rest
    exact ⟨isSome_of_required source, isSome_of_required target, handles.1, handles.2⟩
  rw [readEdge_eq form, mapError_eq_ok_iff, addEdge_eq_ok_iff] at read
  obtain ⟨takes, rfl⟩ := read
  exact h.withEdge ⟨isNamed_socketUnder (by decide), isNamed_socketUnder (by decide)⟩ takes

/-- Whatever graph is read can be saved. -/
theorem ofDocument_storable (handles : HandlesAreTexts document) (read : ofDocument document = .ok g) : g.Storable := by
  obtain ⟨g₁, nodes, edges⟩ := bind_eq_ok.mp read
  have first : g₁.Storable := (foldlM_result (E := fun _ => True)
    (fun _ _ _ _ h read => readNode_storable h read) (fun _ _ _ _ _ => trivial) .empty).1 g₁ nodes
  exact (foldlM_result (E := fun _ => True)
    (fun entry mem _ _ h read => readEdge_storable (handles entry mem) h read) (fun _ _ _ _ _ => trivial) first).1 g edges

/-! ## The document of a graph -/

theorem nodeForm_nodeEntry (n : Node) : NodeForm (nodeEntry n) := ⟨rfl, trivial, trivial⟩

theorem edgeForm_edgeEntry (named : IsNamed e.sourceSocket ∧ IsNamed e.targetSocket) : EdgeForm (edgeEntry e) := by
  obtain ⟨source, sourceSocket, target, targetSocket⟩ := e
  obtain ⟨⟨s, -, rfl⟩, ⟨t, -, rfl⟩⟩ := named
  exact ⟨rfl, rfl, trivial, trivial⟩

theorem tag_ne_empty (kind : Kind) : kind.tag ≠ "" := by cases kind <;> decide

/-- The entry of a node describes it. -/
theorem isNode_nodeEntry {n : Node} (text : ∃ s, n.id = .text s) : IsNode (nodeEntry n) n := by
  obtain ⟨id, kind, params⟩ := n
  obtain ⟨s, rfl⟩ := text
  refine ⟨rfl, ?_, rfl⟩
  have tag : tagUnder (nodeEntry ⟨.text s, kind, params⟩) = kind.tag := if_neg (tag_ne_empty kind)
  rw [tag]
  exact .inl rfl

/-- The entry of an edge is read as the edge. -/
theorem edgeUnder_edgeEntry (named : IsNamed e.sourceSocket ∧ IsNamed e.targetSocket) (source : ∃ s, e.source = .text s)
    (target : ∃ s, e.target = .text s) : edgeUnder (edgeEntry e) = e := by
  obtain ⟨_, _, _, _⟩ := e
  obtain ⟨⟨s, hs, rfl⟩, ⟨t, ht, rfl⟩⟩ := named
  obtain ⟨u, rfl⟩ := source
  obtain ⟨v, rfl⟩ := target
  have first : socketUnder (edgeEntry ⟨.text u, .text s, .text v, .text t⟩) "sourceHandle" "out" = s := if_neg hs
  have second : socketUnder (edgeEntry ⟨.text u, .text s, .text v, .text t⟩) "targetHandle" "in" = t := if_neg ht
  rw [edgeUnder, first, second]
  rfl

namespace Storable

theorem text_of_hasNode (h : g.Storable) {v : Label} (there : g.hasNode v = true) : ∃ s, v = .text s := by
  obtain ⟨n, found, rfl⟩ := exists_node there
  exact h.texts n (List.mem_of_find?_eq_some found)

theorem edgeUnder_edgeEntry (h : g.Storable) (mem : e ∈ g.edges) : edgeUnder (edgeEntry e) = e :=
  Graph.edgeUnder_edgeEntry (h.named e mem) (h.text_of_hasNode (h.ends e mem).1) (h.text_of_hasNode (h.ends e mem).2)

theorem map_edgeUnder (h : g.Storable) : (g.edges.map edgeEntry).map edgeUnder = g.edges := by
  rw [List.map_map]
  exact (List.map_congr_left fun e mem => h.edgeUnder_edgeEntry mem).trans (List.map_id g.edges)

theorem described (h : g.Storable) : List.Forall₂ IsNode (g.nodes.map nodeEntry) g.nodes := by
  rw [List.forall₂_map_left_iff, List.forall₂_same]
  exact fun n mem => isNode_nodeEntry (h.texts n mem)

/-- A graph that can be saved is read back as it is. -/
theorem ofDocument_toDocument (h : g.Storable) : ofDocument g.toDocument = .ok g := by
  refine bind_eq_ok.mpr ⟨⟨g.nodes, []⟩, ?_, ?_⟩
  · refine (foldlM_readNode_eq_ok_iff ?_).mpr ⟨fun _ _ => rfl, ?_, g.nodes, h.described, rfl⟩
    · exact List.forall_mem_map.mpr fun n _ => nodeForm_nodeEntry n
    · have distinct := h.distinct
      rw [ids_of_described h.described] at distinct
      exact distinct.of_map _
  · refine (foldlM_readEdge_eq_ok_iff ?_).mpr ⟨?_, ?_, ?_⟩
    · exact List.forall_mem_map.mpr fun e mem => edgeForm_edgeEntry (h.named e mem)
    · refine List.forall_mem_map.mpr fun e mem => ?_
      rw [h.edgeUnder_edgeEntry mem]
      exact ⟨(h.ends e mem).1, (h.ends e mem).2, nofun⟩
    · exact h.map_edgeUnder.symm ▸ h.single
    · exact congrArg (Graph.mk g.nodes) h.map_edgeUnder.symm

end Storable

/-- A graph that was read from a document whose handles are texts or null, and then edited in any way that names what it
adds, is saved as a document that is read as the same graph: the same nodes and the same edges in the same order. So
the inputs, the ancestors and the descendants of every node are the same, and saving the graph again gives the same
document. -/
theorem saved_graph_reloads (document : Json) (handles : HandlesAreTexts document) (loaded : Graph)
    (read : ofDocument document = .ok loaded) (edits : List Edit) (proper : ∀ edit ∈ edits, edit.Proper) :
    let g := edits.foldl edited loaded
    ∃ again, ofDocument g.toDocument = .ok again ∧ again.nodes = g.nodes ∧ again.edges = g.edges ∧
      (∀ v, again.inputsOf v = g.inputsOf v ∧ again.ancestors v = g.ancestors v ∧
        again.descendants v = g.descendants v) ∧
      again.toDocument = g.toDocument := by
  intro g
  have storable : g.Storable :=
    foldl_edited (fun edit mem _ _ h made => h.attempt (proper edit mem) made) (ofDocument_storable handles read)
  exact ⟨g, storable.ofDocument_toDocument, rfl, rfl, fun _ => ⟨rfl, rfl, rfl⟩, rfl⟩

/-- A document with one node of a kind by its alias, to which another node and an edge are added. -/
theorem saved_graph_reloads_edited :
    ∃ again, ofDocument (toDocument ⟨[⟨.text "1", .union, [("r", .whole 7)]⟩, ⟨.text "c", .color, []⟩],
        [⟨.text "c", .text "out", .text "1", .text "in"⟩]⟩) = .ok again ∧
      again.edges = [⟨.text "c", .text "out", .text "1", .text "in"⟩] := by
  obtain ⟨again, read, -, edges, -, -⟩ := saved_graph_reloads
    (.object [("nodes", .list [.object [("id", .whole 1), ("type", .text "add")]])]) nofun
    ⟨[⟨.text "1", .union, []⟩], []⟩ rfl
    [.addNode ⟨.text "c", .color, []⟩, .connect (.text "c") (.text "1") (.text "in") (.text "out"),
      .updateParams (.text "1") [("r", .whole 7)]]
    (by
      refine List.forall_mem_cons.mpr ⟨⟨_, rfl⟩, List.forall_mem_cons.mpr ⟨⟨⟨_, ?_, rfl⟩, _, ?_, rfl⟩,
        List.forall_mem_cons.mpr ⟨trivial, nofun⟩⟩⟩ <;> decide)
  exact ⟨again, read, edges⟩

end VectorGraph.Graph
