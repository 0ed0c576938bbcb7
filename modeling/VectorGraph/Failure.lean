import VectorGraph.Number.Extent
import VectorGraph.Text.Literal

/-!
What can go wrong, by cause.

A `GraphFault` is a defect of the graph or of the request: an unknown node, a cycle, a socket without
an input. Any other `Failure` comes from arithmetic or from a look-up. A `RasterFault` is the failure
of a rendering; it never ends an evaluation, the operator that asked falls back instead.
-/
namespace VectorGraph

/-- What a node or a socket is called by: a text in a document, any value in a request. -/
abbrev Label := Json

inductive GraphFault where
  /-- No operator has this tag. -/
  | unknownKind (tag : Json)
  /-- The target of an evaluation is not in the graph. -/
  | unknownNode (id : Label)
  /-- An edge that is to be added names a node that is not there. -/
  | unknownEndpoint (id : Label)
  /-- A node on the way to the target takes its input from a node that is not there. -/
  | unknownSource (node source : Label)
  | duplicateNode (id : Label)
  | socketTaken (socket node : Label)
  | badResolution (resolution : Json)
  /-- The nodes along a cycle in the direction of the data, the first one repeated at the end. -/
  | cycle (ids : List Label)
  | missingInput (node : Label) (socket : String)

namespace GraphFault

def message : GraphFault → String
  | .unknownKind tag => "Unknown node kind: " ++ tag.literal
  | .unknownNode id => "Unknown node " ++ id.literal
  | .unknownEndpoint id => "Edge references unknown node " ++ id.literal
  | .unknownSource node source =>
    "Node " ++ node.literal ++ " has an input from unknown node " ++ source.literal
  | .duplicateNode id => "Duplicate node id " ++ id.literal
  | .socketTaken socket node =>
    "Port " ++ socket.literal ++ " of node " ++ node.literal ++ " already has an incoming edge"
  | .badResolution resolution => "Resolution must be a positive integer, got " ++ resolution.literal
  | .cycle ids => "Cycle detected in node graph: " ++ " -> ".intercalate (ids.map Json.nameText)
  | .missingInput node socket =>
    "Node " ++ node.literal ++ " requires an input on port " ++ literalText socket

end GraphFault

inductive Failure where
  | graph (fault : GraphFault)
  /-- A number beyond the largest double stood where a double is needed. -/
  | tooLarge
  | divisionByZero
  /-- A function was asked for its value outside its domain. -/
  | outsideDomain
  /-- A text is not of the form required. -/
  | malformed
  /-- A key, a node or an entry that had to be there is missing. -/
  | missingEntry
  /-- A computation failed for a reason of its own. -/
  | raised (text : String)

namespace Failure

/-- Whether the failure is a defect of the graph. -/
def isGraphFault : Failure → Bool
  | .graph _ => true
  | _ => false

end Failure

/-- The nearest double; what no double can hold is refused. -/
def Scalar.double (a : Scalar) : Except Failure Float :=
  match a.toFloat? with
  | some x => .ok x
  | none => .error .tooLarge

inductive RasterFault where
  | notConfigured
  /-- The back-end refused the markup. -/
  | refused (reason : String)
  /-- The back-end broke down. -/
  | crashed (reason : String)
  | unsupportedBuffer (typeName : String)
  | wrongSize (values : Nat) (width height : Extent)
  /-- Both sides of the size are negative. -/
  | negativeSize

namespace RasterFault

def message : RasterFault → String
  | .notConfigured => "No rasterizer configured"
  | .refused reason => reason
  | .crashed reason => "Rasterizer failed: " ++ reason
  | .unsupportedBuffer typeName => "Unsupported pixel buffer type: " ++ typeName
  | .wrongSize values width height =>
    "Pixel buffer has " ++ toString values ++ " values, expected " ++
      toString (width.count * height.count * 4) ++ " (" ++ width.literal ++ "x" ++ height.literal ++
      " RGBA)"
  | .negativeSize => "The size of a picture cannot be negative"

end RasterFault

end VectorGraph
