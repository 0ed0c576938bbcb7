import VectorGraph.Outline.Spline
import VectorGraph.Outline.Bezier

/-!
Reading points from documents. Whatever is not a list has no points, and an entry without two finite
coordinates is dropped.
-/
namespace VectorGraph

namespace Json

/-- The finite number that a value is, if it is one; an integer beyond the doubles is refused. -/
def finite? (value : Json) : Except Failure (Option Scalar) := do
  match value.scalar? with
  | none => return none
  | some a => return if ← Outline.isFinite a then some a else none

/-- The finite number under a key. -/
def finiteAt? (value : Json) (key : String) : Except Failure (Option Scalar) :=
  ((value.get? key).getD .null).finite?

/-- The items of a list; any other value has none. -/
def items : Json → List Json
  | .list items => items
  | _ => []

end Json

namespace Outline

/-- The finite coordinates of an entry; the second is looked at only after the first. -/
def coordinates? (entry : Json) : Except Failure (Option (Scalar × Scalar)) := do
  match ← entry.finiteAt? "x" with
  | none => return none
  | some x => return (← entry.finiteAt? "y").map fun y => (x, y)

def roleOf (entry : Json) : Option Role :=
  match entry.get? "type" with
  | some (.text "inner") => some .inner
  | some (.text "outer") => some .outer
  | _ => none

/-- A point of a spline, scaled. -/
def readSplinePoint (scale : Scalar) (entry : Json) : Except Failure (Option (SplinePoint Scalar)) := do
  match ← coordinates? entry with
  | none => return none
  | some (x, y) => return some ⟨← (x * scale).check, ← (y * scale).check, roleOf entry⟩

/-- The points of a spline. -/
def readSplinePoints (raw : Json) (scale : Scalar) : Except Failure (List (SplinePoint Scalar)) := do
  return (← raw.items.mapM (readSplinePoint scale)).filterMap id

/-- A handle of an anchor, scaled; a coordinate that is missing is the anchor's own. -/
def readHandle (scale : Scalar) (px py : Scalar) (handle : Json) : Except Failure (Scalar × Scalar) := do
  let x ← handle.finiteAt? "x"
  let y ← handle.finiteAt? "y"
  return (← ((x.map (· * scale)).getD px).check, ← ((y.map (· * scale)).getD py).check)

/-- An anchor with both handles, all coordinates given. -/
structure PlacedAnchor where
  point : Scalar × Scalar
  handleIn : Scalar × Scalar
  handleOut : Scalar × Scalar

/-- An anchor of a free curve, scaled. -/
def readAnchor (scale : Scalar) (entry : Json) : Except Failure (Option PlacedAnchor) := do
  match ← coordinates? entry with
  | none => return none
  | some (x, y) =>
    let px ← (x * scale).check
    let py ← (y * scale).check
    let before ← readHandle scale px py ((entry.get? "handleIn").getD .null)
    let after ← readHandle scale px py ((entry.get? "handleOut").getD .null)
    return some ⟨(px, py), before, after⟩

/-- The anchors of a free curve. -/
def readAnchors (raw : Json) (scale : Scalar) : Except Failure (List PlacedAnchor) := do
  return (← raw.items.mapM (readAnchor scale)).filterMap id

def Spot.ofPoint (p : Scalar × Scalar) : Spot := ⟨some p.1, some p.2⟩

/-- A placed anchor as one whose coordinates may be anything. -/
def PlacedAnchor.anchor (a : PlacedAnchor) : Anchor :=
  ⟨.ofPoint a.point, some (.ofPoint a.handleIn), some (.ofPoint a.handleOut)⟩

end Outline

end VectorGraph
