import VectorGraph.Graph.Basic

/-!
Reachability and cycles.

`ancestors` and `descendants` collect the nodes on a backward or forward path of at least one edge.
`checkAcyclic` searches the ancestry of a node depth first and reports the first defect it meets: a
source that is not in the graph, or a source that is still being searched, which closes a cycle.
-/
namespace VectorGraph.Graph

/-- Takes nodes off a stack until it is empty; one that is new is kept and its neighbours follow. -/
def walk (next : Label → List Label) : Nat → List Label → List Label → List Label
  | 0, _, seen => seen
  | _ + 1, [], seen => seen
  | fuel + 1, current :: rest, seen =>
    if seen.contains current then walk next fuel rest seen
    else walk next fuel (next current ++ rest) (current :: seen)

/-- Every edge is followed at most once for the start and once for a node that is kept. -/
def reach (g : Graph) (next : Label → List Label) (start : Label) : List Label :=
  walk next (2 * g.edges.length + 1) (next start) []

/-- The nodes from which a path of at least one edge leads to the given one. -/
def ancestors (g : Graph) (id : Label) : List Label := g.reach g.sourcesOf id

/-- The nodes to which a path of at least one edge leads from the given one. -/
def descendants (g : Graph) (id : Label) : List Label := g.reach g.outputsOf id

/-- Searches the ancestry of `node`. `path` holds the nodes under search on the way from the target,
last first, `done` those whose ancestry is known to be sound; the answer adds to the latter. -/
def search (g : Graph) :
    Nat → List Label → List Label → Label → Except GraphFault (List Label)
  | 0, _, done, _ => .ok done
  | fuel + 1, path, done, node => do
    let done ← (g.sourcesOf node).foldlM
      (fun done source =>
        if !g.hasNode source then .error (.unknownSource node source)
        else if (node :: path).contains source then
          .error (.cycle ((node :: path).takeWhile (· != source) ++ [source, node]))
        else if done.contains source then .ok done
        else search g fuel (node :: path) done source)
      done
    return node :: done

/-- Checks that a node and all its ancestors exist and that none of them is its own ancestor. -/
def checkAcyclic (g : Graph) (id : Label) : Except GraphFault Unit :=
  if !g.hasNode id then .error (.unknownNode id)
  else (g.search (g.nodes.length + 1) [] [] id).map fun _ => ()

end VectorGraph.Graph
