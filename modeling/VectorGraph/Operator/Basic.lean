import VectorGraph.Fragment
import VectorGraph.Markup.Element
import VectorGraph.Params.Catalog
import VectorGraph.Picture.Buffer
import VectorGraph.Settings.Basic

/-!
What operators work with.

An operator turns parameters and input fragments into a fragment. It may mint ids for definitions,
and it may need pixels: then it hands out a request together with what it will make of the reply.
-/
namespace VectorGraph

/-- Mints ids for definitions: a counter, and a salt that tells passes apart. -/
structure IdSource where
  salt : String
  counter : Int := 0
  deriving DecidableEq, Repr, Inhabited

namespace IdSource

/-- The next id, which begins with the given word. -/
def mint (ids : IdSource) (word : String) : String × IdSource :=
  (word ++ "_" ++ toString (ids.counter + 1) ++ "_" ++ ids.salt, { ids with counter := ids.counter + 1 })

end IdSource

/-- Markup to be rendered into `width · height` pixels, seen through a square of side `viewport`. -/
structure RasterRequest where
  markup : String
  defs : List String
  width : Extent
  height : Extent
  viewport : Extent
  deriving DecidableEq, Repr, Inhabited

/-- The document to be rendered. -/
def RasterRequest.document (r : RasterRequest) : String :=
  svgDocument r.markup r.defs r.viewport r.width r.height

/-- A fragment, or the failure to make one, after the lines that were reported. -/
structure Outcome where
  log : List String := []
  result : Except Failure Fragment

/-- How far an operator comes at once. -/
inductive Work where
  | done (outcome : Outcome)
  /-- Pixels are needed; `resume` says what becomes of them or of the failure to get them. -/
  | paint (request : RasterRequest) (resume : Except RasterFault Picture → Outcome)

/-- What an operator may use beside its parameters and inputs. -/
structure Context where
  settings : Settings
  resolution : Extent
  /-- Whether there is a back-end that renders. -/
  canRender : Bool
  node : String

/-- Drawing may mint ids and may fail; an id that was minted before a failure stays used. -/
abbrev Drawing := ExceptT Failure (StateM IdSource)

namespace Drawing

def mint (word : String) : Drawing String := ExceptT.lift fun ids => ids.mint word

def answer (f : Fragment) : Drawing Work := return .done { result := .ok f }

end Drawing

/-- The input on a socket, if it is connected. -/
def Inputs.at? (inputs : Inputs) (socket : String) : Option Fragment :=
  (inputs.find? (·.1 == socket)).map (·.2)

namespace Context

/-- The line that reports a failure which the operator works around. -/
def warning (c : Context) (text reason : String) : String :=
  "Warning: " ++ text ++ " (node " ++ (if c.node = "" then "?" else c.node) ++ "): " ++ reason

/-- The side of the picture in pixels. -/
def side (c : Context) : Int := c.resolution.count

/-- Renders a fragment; without a back-end the failure is known at once. -/
def render (c : Context) (f : Fragment) (size viewport : Extent)
    (resume : Except RasterFault Picture → Outcome) : Drawing Work :=
  if c.canRender then return .paint ⟨f.markup, f.defs, size, size, viewport⟩ resume
  else return .done (resume (.error .notConfigured))

end Context

/-- The quotient of two integers as a double. -/
def ratio (a b : Int) : Except Failure Float :=
  if b = 0 then .error .divisionByZero
  else
    match nearestDouble (decide (a < 0) != decide (b < 0)) a.natAbs b.natAbs with
    | some x => .ok x
    | none => .error .tooLarge

/-- The text of a quotient of two integers. -/
def ratioText (a b : Int) : Except Failure String := return coordinateText (← ratio a b)

/-- An integer as a double. -/
def double (n : Int) : Except Failure Float :=
  match doubleOfInt n with
  | some x => .ok x
  | none => .error .tooLarge

/-- An operator: parameters and inputs to a fragment. -/
abbrev Operator := Context → Fields → Inputs → Drawing Work

end VectorGraph
