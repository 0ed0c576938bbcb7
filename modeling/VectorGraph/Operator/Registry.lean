import VectorGraph.Operator.Bitmaps
import VectorGraph.Operator.Composition

/-!
The operator of every kind, and the input sockets that it reads.
-/
namespace VectorGraph

structure Socket where
  name : String
  required : Bool
  deriving DecidableEq, Repr

namespace Kind

/-- The sockets of a kind in the order of their declaration. -/
def sockets : Kind → List Socket
  | .rectangle | .circle | .polygon | .wavyRing | .beam | .path | .pen => []
  | .image | .gradient | .value => []
  | .translate | .rotate | .scale | .output => [⟨"in", true⟩]
  | .union | .difference | .intersection | .exclusion => [⟨"a", true⟩, ⟨"b", false⟩]
  | _ => [⟨"in", false⟩]

def requiredSockets (k : Kind) : List String := (k.sockets.filter (·.required)).map (·.name)

def operator : Kind → Operator
  | .rectangle => Operator.rectangle
  | .circle => Operator.circle
  | .polygon => Operator.polygon
  | .wavyRing => Operator.wavyRing
  | .beam => Operator.beam
  | .path => Operator.path
  | .pen => Operator.pen
  | .image => Operator.image
  | .gradient => Operator.gradient
  | .color => Operator.color
  | .value => Operator.brightness
  | .alpha => Operator.opacity
  | .wave => Operator.wave
  | .trace => Operator.trace
  | .fill => Operator.fill
  | .stroke => Operator.stroke
  | .gradientFade => Operator.gradientFade
  | .glow => Operator.glow
  | .neon => Operator.neon
  | .softBlur => Operator.softBlur
  | .pixelate => Operator.pixelate
  | .layerBlur => Operator.layerBlur
  | .translate => Operator.translate
  | .rotate => Operator.rotate
  | .scale => Operator.scale
  | .polar => Operator.polar
  | .union => Operator.union
  | .difference => Operator.difference
  | .intersection => Operator.intersection
  | .exclusion => Operator.exclusion
  | .output => Operator.output

end Kind

end VectorGraph
