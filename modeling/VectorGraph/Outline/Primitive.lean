import VectorGraph.Number.Pi
import VectorGraph.Outline.Command

/-!
The outlines of the basic shapes: rectangles with round corners, ellipses, stars, wavy rings and
beams.
-/
namespace VectorGraph.Outline

/-- The radii of the four corners of a rectangle. -/
structure Corners (α : Type) where
  topLeft : α
  topRight : α
  bottomRight : α
  bottomLeft : α

/-- A rectangle from its top left corner clockwise, one arc per corner. -/
def rectangle {α : Type} [Sub α] [OfNat α 0] (w h : α) (c : Corners α) : Outline α :=
  [.move c.topLeft 0,
    .line (w - c.topRight) 0,
    .arc c.topRight c.topRight false true w c.topRight,
    .line w (h - c.bottomRight),
    .arc c.bottomRight c.bottomRight false true (w - c.bottomRight) h,
    .line c.bottomLeft h,
    .arc c.bottomLeft c.bottomLeft false true 0 (h - c.bottomLeft),
    .line 0 c.topLeft,
    .arc c.topLeft c.topLeft false true c.topLeft 0,
    .close]

/-- An ellipse of two arcs, symmetric to each other. -/
def ellipse {α : Type} [Add α] [Sub α] (cx cy rx ry : α) : Outline α :=
  [.move (cx - rx) cy,
    .arc rx ry true false (cx + rx) cy,
    .arc rx ry true false (cx - rx) cy,
    .close]

/-- A trapezoid around the origin, its top edge first. -/
def beam (length top bottom : Scalar) : Outline Scalar :=
  let high := length.half
  let up := high.mapFloat (-·)
  let right := top.half
  let wide := bottom.half
  [.move (right.mapFloat (-·)) up, .line right up, .line wide high,
    .line (wide.mapFloat (-·)) high, .close]

/-- A double as it enters a formula with document numbers. -/
def real (x : Float) : Scalar := .real x

/-- Refuses a vertex that no pair of doubles can hold. -/
def checkVertex (v : Scalar × Scalar) : Except Failure (Scalar × Scalar) := do
  return (← v.1.check, ← v.2.check)

/-- Vertex `i` of a star of `total` vertices: outer and inner radius in turn, the first vertex
pointing straight up. -/
def starVertex (cx cy : Scalar) (total : Nat) (outer inner : Scalar) (i : Nat) :
    Scalar × Scalar :=
  let r := if i % 2 = 0 then outer else inner
  let angle := (pi * 2 * Float.ofNat i) / Float.ofNat total - pi / 2
  (cx + r * real angle.cos, cy + r * real angle.sin)

/-- A star with the given number of points, or a regular polygon when the radii are equal. -/
def star (cx cy : Scalar) (points : Int) (outer inner : Scalar) :
    Except Failure (Outline Scalar) := do
  let total := (points * 2).toNat
  let vertices ← (List.range total).mapM fun i =>
    checkVertex (starVertex cx cy total outer inner i)
  return polyline vertices true

/-- The number of steps in which a wavy ring goes round. -/
def wavySteps : Nat := 360

/-- Vertex `i` of a ring of radius `r` that is modulated by `amplitude · sin (frequency · angle)`;
the sine of an infinite angle is refused. -/
def wavyVertex (r frequency amplitude : Scalar) (i : Nat) : Except Failure (Scalar × Scalar) := do
  let angle := (Float.ofNat i / Float.ofNat wavySteps) * pi * 2
  match (real angle * frequency).toFloat? with
  | none => throw .tooLarge
  | some phase =>
    if phase.isInf then throw .outsideDomain
    let radius := r + real phase.sin * amplitude
    checkVertex (radius * real angle.cos, radius * real angle.sin)

/-- A ring with a wavy rim. -/
def wavyRing (r frequency amplitude : Scalar) : Except Failure (Outline Scalar) := do
  return polyline (← (List.range (wavySteps + 1)).mapM (wavyVertex r frequency amplitude)) true

end VectorGraph.Outline
