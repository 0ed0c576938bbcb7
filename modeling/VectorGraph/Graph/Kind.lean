import VectorGraph.Failure

/-!
The kinds of operators, their tags, and the further names under which saved graphs know some of
them.
-/
namespace VectorGraph

inductive Kind where
  | rectangle | circle | polygon | wavyRing | beam | path | pen
  | image | gradient | color | value | alpha
  | wave | trace
  | fill | stroke | gradientFade
  | glow | neon | softBlur | pixelate | layerBlur
  | translate | rotate | scale | polar
  | union | difference | intersection | exclusion
  | output
  deriving DecidableEq, Repr, Inhabited

namespace Kind

def tag : Kind → String
  | .rectangle => "rectangle"
  | .circle => "circle"
  | .polygon => "polygon"
  | .wavyRing => "wavy_ring"
  | .beam => "beam"
  | .path => "path"
  | .pen => "pen"
  | .image => "image"
  | .gradient => "gradient"
  | .color => "color"
  | .value => "value"
  | .alpha => "alpha"
  | .wave => "wave"
  | .trace => "trace"
  | .fill => "fill"
  | .stroke => "stroke"
  | .gradientFade => "gradient_fade"
  | .glow => "glow"
  | .neon => "neon"
  | .softBlur => "soft_blur"
  | .pixelate => "pixelate"
  | .layerBlur => "layer_blur"
  | .translate => "translate"
  | .rotate => "rotate"
  | .scale => "scale"
  | .polar => "polar"
  | .union => "union"
  | .difference => "difference"
  | .intersection => "intersection"
  | .exclusion => "exclusion"
  | .output => "output"

/-- Every kind. -/
def all : List Kind :=
  [.rectangle, .circle, .polygon, .wavyRing, .beam, .path, .pen, .image, .gradient, .color, .value,
    .alpha, .wave, .trace, .fill, .stroke, .gradientFade, .glow, .neon, .softBlur, .pixelate,
    .layerBlur, .translate, .rotate, .scale, .polar, .union, .difference, .intersection, .exclusion,
    .output]

/-- Further names, from graphs saved by an editing surface. -/
def ofAlias? : String → Option Kind
  | "add" => some .union
  | "subtract" => some .difference
  | "multiply" => some .intersection
  | "divide" => some .exclusion
  | "outputNode" => some .output
  | _ => none

/-- The kind with a given tag or alias. -/
def ofTag? (tag : String) : Option Kind :=
  ofAlias? tag <|> all.find? fun k => k.tag == tag

/-- The kind that a value of a document names. -/
def parse : Json → Except GraphFault Kind
  | .text tag =>
    match ofTag? tag with
    | some kind => .ok kind
    | none => .error (.unknownKind (.text tag))
  | other => .error (.unknownKind other)

end Kind

end VectorGraph
