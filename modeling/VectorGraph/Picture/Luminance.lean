import VectorGraph.Contour.March
import VectorGraph.Picture.Basic

/-!
Brightness of pixels, and the grid of samples that are brighter than a threshold.
-/
namespace VectorGraph

namespace Pixel

/-- The luminance weighted by the opacity, from zero to one. -/
def luminance (c : Pixel) : Float :=
  let lum := (c.r.toFloat * 0.299 + c.g.toFloat * 0.587 + c.b.toFloat * 0.114) / 255
  lum * (c.a.toFloat / 255)

/-- Whether a pixel is brighter than the threshold, or darker when inverted. -/
def isFilled (threshold : Float) (invert : Bool) (c : Pixel) : Bool :=
  if invert then c.luminance < threshold else threshold < c.luminance

end Pixel

namespace Picture

/-- One sample per pixel. -/
def binarize (p : Picture) (threshold : Float) (invert : Bool) : Contour.Grid :=
  let states := p.pixels.map (Pixel.isFilled threshold invert)
  { width := p.width
    height := p.height
    filled := fun x y => states.getD (y * p.width + x) false }

end Picture

end VectorGraph
