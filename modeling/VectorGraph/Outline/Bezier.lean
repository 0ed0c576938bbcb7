import VectorGraph.Outline.Command

/-!
Curves through anchors with handles of their own.

Anchors without two finite coordinates are skipped and the curve goes on from the last valid one. A
handle without two finite coordinates is replaced by its anchor.
-/
namespace VectorGraph.Outline

/-- A pair of coordinates, each of them possibly not a number. -/
structure Spot where
  x : Option Scalar
  y : Option Scalar

/-- An anchor with the handles before and after it. -/
structure Anchor where
  spot : Spot
  handleIn : Option Spot := none
  handleOut : Option Spot := none

/-- Whether a number is finite; an integer beyond the doubles is refused. -/
def isFinite (a : Scalar) : Except Failure Bool :=
  match a.toFloat? with
  | none => .error .tooLarge
  | some x => .ok (isFiniteDouble x)

/-- The coordinates, if both are finite numbers; the second is looked at only after the first. -/
def Spot.point? (s : Spot) : Except Failure (Option (Scalar × Scalar)) := do
  match s.x with
  | none => return none
  | some x =>
    if !(← isFinite x) then return none
    match s.y with
    | none => return none
    | some y => return if ← isFinite y then some (x, y) else none

/-- A valid anchor: its point, and its handles as they were given. -/
structure Knot where
  point : Scalar × Scalar
  handleIn : Option Spot
  handleOut : Option Spot

/-- The knots of a list of anchors, invalid and missing ones dropped. -/
def knots (anchors : List (Option Anchor)) : Except Failure (List Knot) := do
  let found ← anchors.mapM fun anchor =>
    match anchor with
    | none => .ok none
    | some a => do
      return (← a.spot.point?).map fun p => Knot.mk p a.handleIn a.handleOut
  return found.filterMap id

/-- A handle, or the point that it belongs to. -/
def handleOr (handle : Option Spot) (point : Scalar × Scalar) :
    Except Failure (Scalar × Scalar) := do
  match handle with
  | none => return point
  | some s => return (← s.point?).getD point

/-- The curve from one knot to the next. -/
def segment (start stop : Knot) : Except Failure (Command Scalar) := do
  let leave ← handleOr start.handleOut start.point
  let reach ← handleOr stop.handleIn stop.point
  return .cubic leave.1 leave.2 reach.1 reach.2 stop.point.1 stop.point.2

/-- The outline through the valid anchors. -/
def bezier (anchors : List (Option Anchor)) (closed : Bool) : Except Failure (Outline Scalar) := do
  let all ← knots anchors
  match all with
  | [] => return []
  | first :: rest =>
    let curves ← (all.zip rest).mapM fun (start, stop) => segment start stop
    let closing ←
      match closed, rest.getLast? with
      | true, some last => do pure [← segment last first, .close]
      | _, _ => pure []
    return .move first.point.1 first.point.2 :: curves ++ closing

end VectorGraph.Outline
