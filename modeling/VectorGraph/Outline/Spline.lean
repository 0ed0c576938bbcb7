import VectorGraph.Outline.Command

/-!
Splines with a tension at every point.

Between neighbours `p₀` and `p₁` runs a cubic curve that leaves `p₀` along `(p₁ - p₋₁) · t(p₀) / 4`
and reaches `p₁` along `(p₂ - p₀) · t(p₁) / 4`. The list of points is taken as a ring for the sake of
the neighbours, whether or not the outline is closed.
-/
namespace VectorGraph.Outline

inductive Role where
  | inner
  | outer
  deriving DecidableEq, Repr

structure SplinePoint (α : Type) where
  x : α
  y : α
  role : Option Role := none
  deriving Inhabited

/-- One tension for all points, or one for inner points and one for all others. -/
inductive Tension (α : Type) where
  | uniform (t : α)
  | byRole (inner outer : α)

/-- The tension at a point with the given role; a point without a role counts as outer. -/
def Tension.at {α : Type} : Tension α → Option Role → α
  | .uniform t, _ => t
  | .byRole inner _, some .inner => inner
  | .byRole _ outer, _ => outer

/-- Whether all tensions are so small that the segments are straight. -/
def Tension.isStraight {α : Type} (small : α → Bool) : Tension α → Bool
  | .uniform t => small t
  | .byRole inner outer => small inner && small outer

section

variable {α : Type} [Add α] [Sub α] [Mul α] [Inhabited α]

/-- A point of the ring of points, counted from anywhere. -/
def ringPoint (points : Array (SplinePoint α)) (i : Nat) : SplinePoint α :=
  points[i % points.size]!

/-- The handle of point `i`: a quarter of the way between its neighbours, times its tension. -/
def handle (quarter : α) (tension : Tension α) (points : Array (SplinePoint α)) (i : Nat) : α × α :=
  let before := ringPoint points (i + points.size - 1)
  let here := ringPoint points i
  let after := ringPoint points (i + 1)
  let t := tension.at here.role
  ((after.x - before.x) * t * quarter, (after.y - before.y) * t * quarter)

/-- The curve from point `i` to the next one. -/
def curve (quarter : α) (tension : Tension α) (points : Array (SplinePoint α)) (i : Nat) :
    Command α :=
  let here := ringPoint points i
  let next := ringPoint points (i + 1)
  let leave := handle quarter tension points i
  let reach := handle quarter tension points (i + 1)
  .cubic (here.x + leave.1) (here.y + leave.2) (next.x - reach.1) (next.y - reach.2) next.x next.y

/-- The spline through the given points; fewer than two points have none. -/
def splineWith (quarter : α) (small : α → Bool) (points : Array (SplinePoint α))
    (tension : Tension α) (closed : Bool) : Outline α :=
  if points.size < 2 then []
  else if tension.isStraight small then
    polyline (points.toList.map fun p => (p.x, p.y)) closed
  else
    let first := ringPoint points 0
    let count := if closed then points.size else points.size - 1
    .move first.x first.y :: (List.range count).map (curve quarter tension points) ++
      (if closed then [.close] else [])

end

/-- Tensions up to this value give straight segments. -/
def straightTension : Float := 0.01

/-- The spline through points with document numbers as coordinates. -/
def spline (points : List (SplinePoint Scalar)) (tension : Tension Scalar) (closed : Bool) :
    Outline Scalar :=
  splineWith (.real 0.25) (·.le straightTension) points.toArray tension closed

end VectorGraph.Outline
