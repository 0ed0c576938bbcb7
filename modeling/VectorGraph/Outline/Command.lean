import VectorGraph.Number.Text
import VectorGraph.Number.Scalar
import VectorGraph.Failure

/-!
Outlines as lists of drawing commands.

A command is polymorphic in its coordinates, so that the geometry of an outline can be studied in
exact arithmetic. `outlineText` writes an outline of document numbers; a coordinate that no double
can hold has no text.
-/
namespace VectorGraph

inductive Command (α : Type) where
  | move (x y : α)
  | line (x y : α)
  /-- A cubic curve with its two control points and its end. -/
  | cubic (x₁ y₁ x₂ y₂ x y : α)
  /-- An elliptical arc: radii, the two flags, and the end. -/
  | arc (rx ry : α) (large sweep : Bool) (x y : α)
  | close
  deriving DecidableEq, Repr

abbrev Outline (α : Type) := List (Command α)

namespace Scalar

/-- The text of a coordinate, rounded to a double first. -/
def coordinate (a : Scalar) : Except Failure String :=
  match a.toFloat? with
  | some x => .ok (coordinateText x)
  | none => .error .tooLarge

/-- Refuses what no double can hold. -/
def check : Scalar → Except Failure Scalar
  | .tooLarge => .error .tooLarge
  | a => .ok a

end Scalar

def flagText (b : Bool) : String := if b then "1" else "0"

/-- A command as written in a path description, for a given text of coordinates. -/
def Command.text {α : Type} (coordinate : α → Except Failure String) :
    Command α → Except Failure String
  | .move x y => do return "M " ++ (← coordinate x) ++ " " ++ (← coordinate y)
  | .line x y => do return "L " ++ (← coordinate x) ++ " " ++ (← coordinate y)
  | .cubic x₁ y₁ x₂ y₂ x y => do
    return "C " ++ (← coordinate x₁) ++ " " ++ (← coordinate y₁) ++ ", " ++ (← coordinate x₂) ++ " " ++
      (← coordinate y₂) ++ ", " ++ (← coordinate x) ++ " " ++ (← coordinate y)
  | .arc rx ry large sweep x y => do
    return "A " ++ (← coordinate rx) ++ " " ++ (← coordinate ry) ++ " 0 " ++ flagText large ++ " " ++
      flagText sweep ++ " " ++ (← coordinate x) ++ " " ++ (← coordinate y)
  | .close => .ok "Z"

/-- The path description of an outline. -/
def outlineText (outline : Outline Scalar) : Except Failure String := do
  return " ".intercalate (← outline.mapM (Command.text Scalar.coordinate))

/-- The outline through the given vertices; no vertices, no outline. -/
def polyline {α : Type} (vertices : List (α × α)) (closed : Bool) : Outline α :=
  match vertices with
  | [] => []
  | first :: rest =>
    .move first.1 first.2 :: rest.map (fun v => .line v.1 v.2) ++ (if closed then [.close] else [])

end VectorGraph
