import VectorGraph.Graph.Kind
import VectorGraph.Json.Canonical

/-!
Directed graphs of operator nodes.

Nodes and edges keep the order in which they were added; replacing a node keeps its place. A socket
of a node takes at most one edge, as long as edges are added through `addEdge`. Labels that stand for
the same, such as `1` and `1.0`, call one socket.
-/
namespace VectorGraph

/-- Whether a label stands before another where labels are listed in order: numbers by their values,
then texts by their code points. -/
def Label.isBefore : Label → Label → Bool
  | .text a, .text b => a < b
  | .text _, _ => false
  | _, .text _ => true
  | a, b =>
    match a.comparable.scalar?.bind Scalar.toFloat?, b.comparable.scalar?.bind Scalar.toFloat? with
    | some x, some y => x < y
    | _, _ => false

structure Node where
  id : Label
  kind : Kind
  params : Fields := []
  deriving Inhabited

namespace Node

/-- The text by which the parameters of a node are identified. -/
def canonicalParams (n : Node) : String := Json.canonical (.object n.params)

end Node

/-- A connection from an output socket of one node to an input socket of another. -/
structure Edge where
  source : Label
  sourceSocket : Label
  target : Label
  targetSocket : Label
  deriving DecidableEq, Repr, Inhabited

structure Graph where
  nodes : List Node := []
  edges : List Edge := []
  deriving Inhabited

namespace Graph

def empty : Graph := {}

def node? (g : Graph) (id : Label) : Option Node := g.nodes.find? (·.id == id)

def hasNode (g : Graph) (id : Label) : Bool := g.nodes.any (·.id == id)

/-- Adds a node, or puts it in the place of the one with its id. -/
def addNode (g : Graph) (n : Node) : Graph :=
  if g.hasNode n.id then
    { g with nodes := g.nodes.map fun old => if old.id == n.id then n else old }
  else
    { g with nodes := g.nodes ++ [n] }

/-- Adds an edge between two nodes of the graph to a socket that is still free. -/
def addEdge (g : Graph) (e : Edge) : Except GraphFault Graph :=
  if !g.hasNode e.source then .error (.unknownEndpoint e.source)
  else if !g.hasNode e.target then .error (.unknownEndpoint e.target)
  else if g.edges.any fun old => old.target == e.target && old.targetSocket.isSame e.targetSocket then
    .error (.socketTaken e.targetSocket e.target)
  else .ok { g with edges := g.edges ++ [e] }

/-- Connects two nodes, by default the socket `out` with the socket `in`. -/
def connect (g : Graph) (source target : Label) (targetSocket : Label := .text "in")
    (sourceSocket : Label := .text "out") : Except GraphFault Graph :=
  g.addEdge ⟨source, sourceSocket, target, targetSocket⟩

/-- Drops a node and leaves its edges. -/
def removeNode (g : Graph) (id : Label) : Option Graph :=
  if g.hasNode id then some { g with nodes := g.nodes.filter (·.id != id) } else none

/-- Sets some parameters of a node; nothing if there is no such node. -/
def updateParams (g : Graph) (id : Label) (updates : Fields) : Option Graph :=
  if g.hasNode id then
    some { g with
      nodes := g.nodes.map fun n =>
        if n.id == id then { n with params := Json.mergeFields n.params updates } else n }
  else none

/-- Sets the source of a socket, in its place if the socket is there already. -/
def setSocket (sockets : List (Label × Label)) (socket source : Label) : List (Label × Label) :=
  if sockets.any (·.1.isSame socket) then
    sockets.map fun p => if p.1.isSame socket then (p.1, source) else p
  else sockets ++ [(socket, source)]

/-- The source of every connected socket of a node, in the order of the edges; of two edges to one
socket the later one counts. -/
def inputsOf (g : Graph) (id : Label) : List (Label × Label) :=
  (g.edges.filter (·.target == id)).foldl (fun sockets e => setSocket sockets e.targetSocket e.source) []

/-- The sources of a node. -/
def sourcesOf (g : Graph) (id : Label) : List Label := (g.inputsOf id).map (·.2)

/-- The nodes that a node feeds, once for every edge. -/
def outputsOf (g : Graph) (id : Label) : List Label :=
  (g.edges.filter (·.source == id)).map (·.target)

end Graph

end VectorGraph
