import VectorGraph.Graph.Basic

/-!
Graphs as JSON documents: a list of nodes with `id`, `type` and `params`, and a list of edges with
`source`, `sourceHandle`, `target` and `targetHandle`.

Reading is tolerant where a default makes sense (`kind` for `type`, the sockets `out` and `in`, no
parameters) and refuses a node without an id, two nodes with one id, an unknown kind, and any edge
that the graph itself refuses.
-/
namespace VectorGraph.Graph

/-- The items of a list under a key; none if the key is missing. -/
def itemsOf (document : Json) (key : String) : List Json :=
  match document.get? key with
  | some (.list items) => items
  | _ => []

/-- The value under a key that has to be there. -/
def required (entry : Json) (key : String) : Except Failure Json :=
  match entry.get? key with
  | some value => .ok value
  | none => .error .missingEntry

/-- The label of a socket, with a default for one that is not given. -/
def socketLabel (entry : Json) (key fallback : String) : Label :=
  match entry.get? key with
  | some value => if value.isGiven then value else .text fallback
  | none => .text fallback

/-- The tag of a node: its `type`, or its `kind` when no type is given. -/
def kindTag (entry : Json) : Json :=
  match entry.get? "type" with
  | some value => if value.isGiven then value else (entry.get? "kind").getD .null
  | none => (entry.get? "kind").getD .null

def readNode (g : Graph) (entry : Json) : Except Failure Graph := do
  let id := Json.text (← required entry "id").nameText
  if g.hasNode id then throw (.graph (.duplicateNode id))
  let kind ← (Kind.parse (kindTag entry)).mapError .graph
  return g.addNode ⟨id, kind, ((entry.get? "params").getD .null).fieldsOf⟩

def readEdge (g : Graph) (entry : Json) : Except Failure Graph := do
  let source := Json.text (← required entry "source").nameText
  let target := Json.text (← required entry "target").nameText
  let edge : Edge :=
    ⟨source, socketLabel entry "sourceHandle" "out", target, socketLabel entry "targetHandle" "in"⟩
  (g.addEdge edge).mapError .graph

/-- The graph that a document describes. -/
def ofDocument (document : Json) : Except Failure Graph := do
  let g ← (itemsOf document "nodes").foldlM readNode empty
  (itemsOf document "edges").foldlM readEdge g

def nodeEntry (n : Node) : Json :=
  .object [("id", n.id), ("type", .text n.kind.tag), ("params", .object n.params)]

def edgeEntry (e : Edge) : Json :=
  .object [("source", e.source), ("sourceHandle", e.sourceSocket), ("target", e.target),
    ("targetHandle", e.targetSocket)]

/-- The document that describes a graph. -/
def toDocument (g : Graph) : Json :=
  .object [("nodes", .list (g.nodes.map nodeEntry)), ("edges", .list (g.edges.map edgeEntry))]

end VectorGraph.Graph
