import VectorGraph.Markup.Paint
import VectorGraph.Operator.Sources

/-!
Operators that restyle their input without pixels: fill and stroke replace paint attributes, the
others wrap the input in a group with a new filter or mask. Without an input they draw nothing.
-/
namespace VectorGraph.Operator

open Markup

/-- An operator that needs an input to draw anything; the parameters are read only then. -/
def onInput (draw : Context → Fields → Fragment → Drawing Work) : Operator :=
  fun c params inputs =>
    match inputs.at? "in" with
    | none => Drawing.answer .empty
    | some source => draw c params source

/-- New paint: the named attributes are removed and the given ones inserted. -/
def repaint (source : Fragment) (names : List String) (attributes : String) : Fragment :=
  ⟨Paint.insertAttributes (Paint.stripAttributes source.markup names) attributes, source.defs⟩

/-- Replaces fill and stroke. A disabled fill keeps an outline, so that the shape stays visible. -/
def fill : Operator := onInput fun _ params source => do
  let enabled ← Params.Fill.fillEnabled.read params
  let width ← Params.Fill.strokeWidth.read params
  let paint := if enabled then "white" else "none"
  let stroke := if 0 < width || !enabled then "white" else "none"
  let shown := if 0 < width then coordinateText width else "1"
  Drawing.answer (repaint source ["fill", "stroke", "stroke-width"]
    ("fill=\"" ++ paint ++ "\" stroke=\"" ++ stroke ++ "\" stroke-width=\"" ++ shown ++ "\""))

/-- Replaces the stroke and keeps the fill. -/
def stroke : Operator := onInput fun _ params source => do
  let width ← Params.Stroke.width.read params
  let opacity ← Params.Stroke.opacity.read params
  Drawing.answer (repaint source ["stroke", "stroke-width", "stroke-opacity"]
    ("stroke=\"white\" stroke-width=\"" ++ coordinateText width ++ "\" stroke-opacity=\"" ++
      coordinateText opacity ++ "\""))

/-- A blur of the graphic that a filter is applied to. -/
def blurStep (deviation : Float) (result : Option String) : Markup :=
  leaf "feGaussianBlur" (given [("stdDeviation", some (coordinateText deviation)),
    ("in", some "SourceGraphic"), ("result", result)])

def mergeNodes (names : List String) : List Markup :=
  names.map fun name => leaf "feMergeNode" [("in", name)]

/-- The area of a filter: it begins `margin` percent outside and is `size` percent large. -/
def filterArea (id : String) (margin size : Nat) : Attributes :=
  let start := "-" ++ toString margin ++ "%"
  let length := toString size ++ "%"
  [("x", start), ("y", start), ("id", id), ("width", length), ("height", length)]

/-- Two blurs merged, their opacity amplified, under the graphic itself. -/
def glowFilter (id : String) (wide tight intensity : Float) : Markup :=
  .element "filter" (filterArea id 200 500)
    [blurStep wide (some "blur1"),
      blurStep tight (some "blur2"),
      .element "feMerge" [("result", "mergedBlurs")] (mergeNodes ["blur1", "blur2"]),
      leaf "feColorMatrix" [("type", "matrix"), ("in", "mergedBlurs"), ("result", "amplifiedBlur"),
        ("values", "1 0 0 0 0 0 1 0 0 0 0 0 1 0 0 0 0 0 " ++ coordinateText intensity ++ " 0")],
      .element "feMerge" [] (mergeNodes ["amplifiedBlur", "SourceGraphic"])]

/-- The input under a filter. -/
def filtered (source : Fragment) (id : String) (filter : Markup) : Fragment :=
  ⟨(group [("filter", reference id)] source.markup).text, source.withDefs [filter.text]⟩

def glow : Operator := onInput fun _ params source => do
  let radius ← Params.Glow.radius.read params
  let intensity ← Params.Glow.intensity.read params
  let id ← Drawing.mint "glow"
  Drawing.answer (filtered source id (glowFilter id (10 + radius) (radius / 3) intensity))

/-- A tighter and brighter glow. -/
def neon : Operator := onInput fun _ params source => do
  let radius ← Params.Neon.radius.read params
  let intensity ← Params.Neon.intensity.read params
  let id ← Drawing.mint "neon"
  Drawing.answer (filtered source id (glowFilter id radius (radius / 4) intensity))

def softBlur : Operator := onInput fun _ params source => do
  let radius ← Params.SoftBlur.radius.read params
  let id ← Drawing.mint "blur"
  Drawing.answer (filtered source id (.element "filter" (filterArea id 50 200) [blurStep radius none]))

/-- Fades the input along a direction; ninety degrees is from left to right. -/
def gradientFade : Operator := onInput fun _ params source => do
  let direction ← Params.GradientFade.direction.read params
  let start ← Params.GradientFade.start.read params
  let stop ← Params.GradientFade.stop.read params
  let maskId ← Drawing.mint "fadeMask"
  let gradientId ← Drawing.mint "fadeGrad"
  let gradient := Markup.element "linearGradient"
    [("gradientTransform", "rotate(" ++ coordinateText (direction - 90) ++ " 0.5 0.5)"),
      ("id", gradientId)]
    [gradientStop "0%" (coordinateText start) "white", gradientStop "100%" (coordinateText stop) "white"]
  let mask := Markup.element "mask" [("id", maskId)]
    [leaf "rect" [("x", "-100%"), ("y", "-100%"), ("width", "300%"), ("height", "300%"),
      ("fill", reference gradientId)]]
  Drawing.answer ⟨(group [("mask", reference maskId)] source.markup).text,
    source.withDefs [gradient.text ++ mask.text]⟩

end VectorGraph.Operator
