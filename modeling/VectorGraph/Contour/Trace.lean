import VectorGraph.Contour.Stitch
import VectorGraph.Picture.Luminance

/-!
Tracing the outline of a bitmap.
-/
namespace VectorGraph.Contour

/-- The outline of the bright part of a picture, scaled to `resolution`. The number of rows gives
the scale and the bound on the length of a subpath. -/
def traceText (p : Picture) (resolution : Int) (threshold : Float) (invert : Bool) :
    Except Failure String := do
  let fidelity := p.height
  if fidelity = 0 then throw .divisionByZero
  match nearestDouble (resolution < 0) resolution.natAbs fidelity with
  | none => throw .tooLarge
  | some scale =>
    stitchText (← march (p.binarize threshold invert) (.real scale)) (2 * fidelity * fidelity)

end VectorGraph.Contour
