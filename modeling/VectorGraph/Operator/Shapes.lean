import VectorGraph.Operator.Basic
import VectorGraph.Outline.Primitive

/-!
Operators that draw shapes.

Sizes are given against the preview resolution and scaled to the actual one; paths and pens use
coordinates as fractions of the resolution.
-/
namespace VectorGraph.Operator

open Markup Outline

/-- How much larger the picture is than the preview. -/
def previewScale (c : Context) : Except Failure Float :=
  ratio c.side c.settings.previewResolution

/-- A move to the middle of the picture. -/
def centered (c : Context) : Except Failure String := do
  let center ← ratioText c.side 2
  return "translate(" ++ center ++ ", " ++ center ++ ")"

/-- A path in a group. -/
def shape (transform : Option String) (path : Attributes) (defs : List String) : Fragment :=
  ⟨(Markup.element "g" (given [("transform", transform)]) [leaf "path" path]).text, defs⟩

/-- A shape of one colour or gradient without an outline. -/
def solid (d fill : String) : Attributes := [("stroke", "none"), ("d", d), ("fill", fill)]

/-- A white shape with a white outline. -/
def outlined (d : String) : Attributes :=
  [("stroke", "white"), ("stroke-width", "2"), ("d", d), ("stroke-linejoin", "round"),
    ("fill", "white")]

def rectangle : Operator := fun c params _ => do
  let width ← Params.Rectangle.width.read params
  let height ← Params.Rectangle.height.read params
  let topLeft ← Params.Rectangle.topLeft.read params
  let topRight ← Params.Rectangle.topRight.read params
  let bottomRight ← Params.Rectangle.bottomRight.read params
  let bottomLeft ← Params.Rectangle.bottomLeft.read params
  let scale ← previewScale c
  let w := width * scale
  let h := height * scale
  let d ← outlineText (Outline.rectangle (real w) (real h)
    ⟨real (topLeft * scale), real (topRight * scale), real (bottomRight * scale),
      real (bottomLeft * scale)⟩)
  let center ← ratio c.side 2
  let transform := "translate(" ++ coordinateText (center - w / 2) ++ ", " ++
    coordinateText (center - h / 2) ++ ")"
  Drawing.answer (shape (some transform) (solid d "white") [])

def circle : Operator := fun c params _ => do
  let width ← Params.Circle.width.read params
  let height ← Params.Circle.height.read params
  let scale ← previewScale c
  let d ← outlineText (Outline.ellipse 0 0 (real (width * scale / 2)) (real (height * scale / 2)))
  Drawing.answer (shape (some (← centered c)) (solid d "white") [])

def polygon : Operator := fun c params _ => do
  let points ← Params.Polygon.points.read params
  let outer ← Params.Polygon.outerRadius.read params
  let inner ← Params.Polygon.innerRadius.read params
  let scale ← previewScale c
  let d ← outlineText (← Outline.star 0 0 points (real (outer * scale)) (real (inner * scale)))
  Drawing.answer (shape (some (← centered c)) (solid d "white") [])

def wavyRing : Operator := fun c params _ => do
  let radius ← Params.WavyRing.radius.read params
  let frequency ← Params.WavyRing.frequency.read params
  let amplitude ← Params.WavyRing.amplitude.read params
  let scale ← previewScale c
  let d ← outlineText (← Outline.wavyRing (real (radius * scale)) (real frequency)
    (real (amplitude * scale)))
  Drawing.answer (shape (some (← centered c)) (solid d "white") [])

/-- A stop of a gradient. -/
def gradientStop (offset opacity color : String) : Markup :=
  leaf "stop" [("offset", offset), ("stop-opacity", opacity), ("stop-color", color)]

/-- A beam fades from top to bottom. -/
def beam : Operator := fun c params _ => do
  let length ← Params.Beam.length.read params
  let top ← Params.Beam.topWidth.read params
  let bottom ← Params.Beam.bottomWidth.read params
  let scale ← previewScale c
  let d ← outlineText (Outline.beam (real (length * scale)) (real (top * scale)) (real (bottom * scale)))
  let id ← Drawing.mint "beamGrad"
  let gradient := Markup.element "linearGradient"
    [("id", id), ("x1", "0"), ("y1", "0"), ("x2", "0"), ("y2", "1")]
    [gradientStop "0%" "1" "white", gradientStop "60%" "0.2" "white", gradientStop "100%" "0" "white"]
  Drawing.answer (shape (some (← centered c)) (solid d (reference id)) [gradient.text])

/-- The tension of a path: one for all points, unless inner or outer points have their own. -/
def pathTension (tension : Float) (inner outer : Option Float) : Tension Scalar :=
  match inner, outer with
  | none, none => .uniform (real tension)
  | _, _ => .byRole (real (inner.getD tension)) (real (outer.getD tension))

/-- The triangle that a path without points draws. -/
def defaultTriangle (resolution : Float) : List (SplinePoint Scalar) :=
  [⟨real (0.5 * resolution), real (0.2 * resolution), some .outer⟩,
    ⟨real (0.8 * resolution), real (0.8 * resolution), some .inner⟩,
    ⟨real (0.2 * resolution), real (0.8 * resolution), some .inner⟩]

/-- A closed spline. Without points it draws a triangle, with malformed points only, nothing. -/
def path : Operator := fun c params _ => do
  let points ← Params.Path.points.read params
  let tension ← Params.Path.tension.read params
  let inner ← Params.Path.tensionInner.read params
  let outer ← Params.Path.tensionOuter.read params
  let placed ←
    if points.isEmpty then do pure (defaultTriangle (← double c.side))
    else readSplinePoints (.list points) (.whole c.side)
  let d ← outlineText (spline placed (pathTension tension inner outer) true)
  Drawing.answer (shape none (outlined d) [])

/-- A closed curve through anchors with handles. -/
def pen : Operator := fun c params _ => do
  let points ← Params.Pen.points.read params
  let anchors ← readAnchors (.list points) (.whole c.side)
  let d ← outlineText (← bezier (anchors.map fun a => some a.anchor) true)
  Drawing.answer (shape none (outlined d) [])

end VectorGraph.Operator
