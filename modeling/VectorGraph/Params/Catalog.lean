import VectorGraph.Graph.Kind
import VectorGraph.Params.Field

/-!
The parameters of every kind of operator, with their keys, fallbacks and bounds.
-/
namespace VectorGraph.Params

/-! ## Rectangle -/

def Rectangle.width : Field .real :=
  { name := "width", key := "width", fallback := 300.0, low := some 0.0 }

def Rectangle.height : Field .real :=
  { name := "height", key := "height", fallback := 300.0, low := some 0.0 }

def Rectangle.topLeft : Field .real :=
  { name := "radius_tl", key := "rTL", fallback := 0.0, low := some 0.0 }

def Rectangle.topRight : Field .real :=
  { name := "radius_tr", key := "rTR", fallback := 0.0, low := some 0.0 }

def Rectangle.bottomRight : Field .real :=
  { name := "radius_br", key := "rBR", fallback := 0.0, low := some 0.0 }

def Rectangle.bottomLeft : Field .real :=
  { name := "radius_bl", key := "rBL", fallback := 0.0, low := some 0.0 }

/-! ## Circle -/

def Circle.width : Field .real :=
  { name := "width", key := "width", fallback := 300.0, low := some 0.0 }

def Circle.height : Field .real :=
  { name := "height", key := "height", fallback := 300.0, low := some 0.0 }

/-! ## Polygon -/

def Polygon.points : Field .whole :=
  { name := "points", key := "points", fallback := 5, low := some 1 }

def Polygon.outerRadius : Field .real :=
  { name := "outer_radius", key := "outerRadius", fallback := 100.0 }

def Polygon.innerRadius : Field .real :=
  { name := "inner_radius", key := "innerRadius", fallback := 50.0 }

/-! ## WavyRing -/

def WavyRing.radius : Field .real := { name := "radius", key := "radius", fallback := 100.0 }

def WavyRing.frequency : Field .real :=
  { name := "frequency", key := "frequency", fallback := 10.0 }

def WavyRing.amplitude : Field .real :=
  { name := "amplitude", key := "amplitude", fallback := 10.0 }

/-! ## Beam -/

def Beam.length : Field .real := { name := "length", key := "length", fallback := 250.0 }

def Beam.topWidth : Field .real := { name := "top_width", key := "topWidth", fallback := 5.0 }

def Beam.bottomWidth : Field .real :=
  { name := "bottom_width", key := "bottomWidth", fallback := 100.0 }

/-! ## Path -/

def Path.points : Field .items := { name := "points", key := "points", fallback := [] }

def Path.tension : Field .real :=
  { name := "tension", key := "tension", fallback := 0.0, low := some 0.0, high := some 1.0 }

def Path.tensionInner : OptionalField .real :=
  { name := "tension_inner", key := "tensionInner", low := some 0.0, high := some 1.0 }

def Path.tensionOuter : OptionalField .real :=
  { name := "tension_outer", key := "tensionOuter", low := some 0.0, high := some 1.0 }

/-! ## Pen -/

def Pen.points : Field .items := { name := "points", key := "points", fallback := [] }

/-! ## Image -/

def Image.imageSrc : Field .text := { name := "image_src", key := "imageSrc", fallback := "" }

/-! ## Gradient -/

/-- From black to white. -/
def defaultStops : List Json :=
  [.object [("offset", .whole 0), ("color", .text "#000000"), ("opacity", .whole 1)],
    .object [("offset", .whole 1), ("color", .text "#ffffff"), ("opacity", .whole 1)]]

def Gradient.stops : Field .items := { name := "stops", key := "stops", fallback := defaultStops }

def Gradient.x : Field .real :=
  { name := "x", key := "x", fallback := 1.0, low := some (-1.0), high := some 1.0 }

def Gradient.y : Field .real :=
  { name := "y", key := "y", fallback := 0.0, low := some (-1.0), high := some 1.0 }

def Gradient.power : Field .real :=
  { name := "power", key := "power", fallback := 1.0, low := some 0.1, high := some 5.0 }

/-! ## Color -/

def Color.r : Field .whole :=
  { name := "r", key := "r", fallback := 255, low := some 0, high := some 255 }

def Color.g : Field .whole :=
  { name := "g", key := "g", fallback := 255, low := some 0, high := some 255 }

def Color.b : Field .whole :=
  { name := "b", key := "b", fallback := 255, low := some 0, high := some 255 }

/-! ## Value -/

def Value.value : Field .real :=
  { name := "value", key := "value", fallback := 0.5, low := some 0.0, high := some 1.0 }

/-! ## Alpha -/

def Alpha.value : Field .real :=
  { name := "value", key := "value", fallback := 1.0, low := some 0.0, high := some 1.0 }

/-! ## Wave -/

def Wave.waveType : Field .text := { name := "wave_type", key := "waveType", fallback := "sine" }

def Wave.generators : Field .whole :=
  { name := "generators", key := "generators", fallback := 5, low := some 1, high := some 20 }

def Wave.frequency : Field .real :=
  { name := "frequency", key := "frequency", fallback := 50.0, low := some 0.0 }

def Wave.amplitude : Field .real := { name := "amplitude", key := "amplitude", fallback := 60.0 }

def Wave.threshold : Field .real := { name := "threshold", key := "threshold", fallback := 50.0 }

def Wave.softness : Field .real :=
  { name := "softness", key := "softness", fallback := 5.0, low := some 0.0 }

def Wave.seed : Field .whole := { name := "seed", key := "seed", fallback := 12345 }

/-! ## Trace -/

def Trace.threshold : Field .real :=
  { name := "threshold", key := "threshold", fallback := 0.5, low := some 0.0, high := some 1.0 }

def Trace.fidelity : OptionalField .whole :=
  { name := "fidelity", key := "fidelity", low := some 2, high := some 1024 }

def Trace.invert : Field .flag := { name := "invert", key := "invert", fallback := false }

/-! ## Fill -/

def Fill.fillEnabled : Field .flag :=
  { name := "fill_enabled", key := "fillEnabled", fallback := true }

def Fill.strokeWidth : Field .real :=
  { name := "stroke_width", key := "strokeWidth", fallback := 0.0, low := some 0.0 }

/-! ## Stroke -/

def Stroke.width : Field .real :=
  { name := "width", key := "width", fallback := 1.0, low := some 0.0 }

def Stroke.opacity : Field .real :=
  { name := "opacity", key := "opacity", fallback := 1.0, low := some 0.0, high := some 1.0 }

/-! ## GradientFade -/

def GradientFade.direction : Field .real :=
  { name := "direction", key := "direction", fallback := 90.0 }

def GradientFade.start : Field .real :=
  { name := "start", key := "start", fallback := 1.0, low := some 0.0, high := some 1.0 }

def GradientFade.stop : Field .real :=
  { name := "end", key := "end", fallback := 0.0, low := some 0.0, high := some 1.0 }

/-! ## Glow -/

def Glow.radius : Field .real :=
  { name := "radius", key := "radius", fallback := 20.0, low := some 0.0 }

def Glow.intensity : Field .real :=
  { name := "intensity", key := "intensity", fallback := 1.5, low := some 0.0 }

/-! ## Neon -/

def Neon.radius : Field .real :=
  { name := "radius", key := "radius", fallback := 15.0, low := some 0.0 }

def Neon.intensity : Field .real :=
  { name := "intensity", key := "intensity", fallback := 2.0, low := some 0.0 }

/-! ## SoftBlur -/

def SoftBlur.radius : Field .real :=
  { name := "radius", key := "radius", fallback := 5.0, low := some 0.0 }

/-! ## Pixelate -/

def Pixelate.pixelSize : Field .real :=
  { name := "pixel_size", key := "pixelSize", fallback := 1.0, low := some 1.0 }

/-! ## LayerBlur -/

def LayerBlur.radius : Field .real :=
  { name := "radius", key := "radius", fallback := 20.0, low := some 0.0 }

def LayerBlur.pointA : Field .point :=
  { name := "point_a", key := "pointA", fallback := ⟨0.5, 0.0⟩ }

def LayerBlur.pointB : Field .point :=
  { name := "point_b", key := "pointB", fallback := ⟨0.5, 1.0⟩ }

/-! ## Translate -/

def Translate.x : Field .real := { name := "x", key := "x", fallback := 0.0 }

def Translate.y : Field .real := { name := "y", key := "y", fallback := 0.0 }

/-! ## Rotate -/

def Rotate.angle : Field .real := { name := "angle", key := "angle", fallback := 0.0 }

/-! ## Scale -/

def Scale.scale : Field .real := { name := "scale", key := "scale", fallback := 1.0 }

/-! ## Polar -/

def Polar.mode : Field .text := { name := "mode", key := "type", fallback := "rect_to_polar" }

def Polar.x : Field .real := { name := "x", key := "x", fallback := 0.0 }

def Polar.y : Field .real := { name := "y", key := "y", fallback := 0.0 }

def Polar.radialScale : Field .real :=
  { name := "radial_scale", key := "radialScale", fallback := 1.0, low := some 0.01 }

def Polar.angularScale : Field .real :=
  { name := "angular_scale", key := "angularScale", fallback := 1.0, low := some 0.01 }

/-! ## All kinds -/

/-- The parameters of a kind, in order. -/
def slots : Kind → List Slot
  | .rectangle =>
    [.needed Rectangle.width, .needed Rectangle.height, .needed Rectangle.topLeft,
      .needed Rectangle.topRight, .needed Rectangle.bottomRight, .needed Rectangle.bottomLeft]
  | .circle => [.needed Circle.width, .needed Circle.height]
  | .polygon => [.needed Polygon.points, .needed Polygon.outerRadius, .needed Polygon.innerRadius]
  | .wavyRing => [.needed WavyRing.radius, .needed WavyRing.frequency, .needed WavyRing.amplitude]
  | .beam => [.needed Beam.length, .needed Beam.topWidth, .needed Beam.bottomWidth]
  | .path =>
    [.needed Path.points, .needed Path.tension, .optional Path.tensionInner,
      .optional Path.tensionOuter]
  | .pen => [.needed Pen.points]
  | .image => [.needed Image.imageSrc]
  | .gradient =>
    [.needed Gradient.stops, .needed Gradient.x, .needed Gradient.y, .needed Gradient.power]
  | .color => [.needed Color.r, .needed Color.g, .needed Color.b]
  | .value => [.needed Value.value]
  | .alpha => [.needed Alpha.value]
  | .wave =>
    [.needed Wave.waveType, .needed Wave.generators, .needed Wave.frequency, .needed Wave.amplitude,
      .needed Wave.threshold, .needed Wave.softness, .needed Wave.seed]
  | .trace => [.needed Trace.threshold, .optional Trace.fidelity, .needed Trace.invert]
  | .fill => [.needed Fill.fillEnabled, .needed Fill.strokeWidth]
  | .stroke => [.needed Stroke.width, .needed Stroke.opacity]
  | .gradientFade =>
    [.needed GradientFade.direction, .needed GradientFade.start, .needed GradientFade.stop]
  | .glow => [.needed Glow.radius, .needed Glow.intensity]
  | .neon => [.needed Neon.radius, .needed Neon.intensity]
  | .softBlur => [.needed SoftBlur.radius]
  | .pixelate => [.needed Pixelate.pixelSize]
  | .layerBlur => [.needed LayerBlur.radius, .needed LayerBlur.pointA, .needed LayerBlur.pointB]
  | .translate => [.needed Translate.x, .needed Translate.y]
  | .rotate => [.needed Rotate.angle]
  | .scale => [.needed Scale.scale]
  | .polar =>
    [.needed Polar.mode, .needed Polar.x, .needed Polar.y, .needed Polar.radialScale,
      .needed Polar.angularScale]
  | .union | .difference | .intersection | .exclusion | .output => []

/-- All parameters of a kind by name, read from a document. -/
def readAll (kind : Kind) (params : Fields) : Except Failure Fields :=
  (slots kind).mapM fun s => return (s.name, ← s.value params)

end VectorGraph.Params
