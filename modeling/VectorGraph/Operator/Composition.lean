import VectorGraph.Operator.Sources

/-!
Operators that move their input and operators that combine two inputs.

Combinations composite coverage: the second input is turned into a mask by a filter that makes it
white, or black on a white square for everything but the input, and keeps its opacity.
-/
namespace VectorGraph.Operator

open Markup

/-- The input of an operator that needs one. -/
def needed (inputs : Inputs) (socket : String) : Except Failure Fragment :=
  match inputs.at? socket with
  | some f => .ok f
  | none => .error .missingEntry

def transformed (source : Fragment) (transform : String) : Fragment :=
  ⟨(group [("transform", transform)] source.markup).text, source.defs⟩

def translate : Operator := fun c params inputs => do
  let x ← Params.Translate.x.read params
  let y ← Params.Translate.y.read params
  let size ← double c.side
  Drawing.answer (transformed (← needed inputs "in")
    ("translate(" ++ coordinateText (x * size) ++ ", " ++ coordinateText (y * size) ++ ")"))

/-- Turns the input around the middle of the picture. -/
def rotate : Operator := fun c params inputs => do
  let angle ← Params.Rotate.angle.read params
  let center ← ratioText c.side 2
  Drawing.answer (transformed (← needed inputs "in")
    ("rotate(" ++ coordinateText angle ++ " " ++ center ++ " " ++ center ++ ")"))

/-- Scales the input around the middle of the picture. -/
def scale : Operator := fun c params inputs => do
  let factor ← Params.Scale.scale.read params
  let center ← ratioText c.side 2
  Drawing.answer (transformed (← needed inputs "in")
    ("translate(" ++ center ++ ", " ++ center ++ ") scale(" ++ coordinateText factor ++
      ") translate(-" ++ center ++ ", -" ++ center ++ ")"))

/-- The matrix that makes everything white. -/
def whiteMatrix : String := colorMatrix "1" "1" "1"

/-- The matrix that makes everything black. -/
def blackMatrix : String := colorMatrix "0" "0" "0"

/-- The recolouring filter and the mask for the coverage of a shape, or for all but the shape. -/
def coverageMask (maskId filterId : String) (shape : Fragment) (resolution : Extent) (inverted : Bool) :
    String × String :=
  let coverage := group [("filter", reference filterId)] shape.markup
  let content := if inverted then [square [] resolution "white", coverage] else [coverage]
  let size := resolution.attributeText
  let mask := Markup.element "mask"
    [("id", maskId), ("maskUnits", "userSpaceOnUse"), ("x", "0"), ("y", "0"), ("width", size),
      ("height", size)] content
  ((recolorFilter filterId (if inverted then blackMatrix else whiteMatrix)).text, mask.text)

/-- The markup of `source` masked by the coverage of `shape`, with the new definitions. -/
def masked (source shape : Fragment) (resolution : Extent) (inverted : Bool) :
    Drawing (String × List String) := do
  let maskId ← Drawing.mint "mask"
  let filterId ← Drawing.mint "coverage"
  let (filter, mask) := coverageMask maskId filterId shape resolution inverted
  return ((group [("mask", reference maskId)] source.markup).text, [filter, mask])

/-- A combination of two inputs; without the second one it is the first. -/
def binary (combine : Fragment → Fragment → Extent → Drawing (String × List String)) : Operator :=
  fun c _ inputs => do
    let a ← needed inputs "a"
    match inputs.at? "b" with
    | none => Drawing.answer a
    | some b =>
      let (markup, extra) ← combine a b c.resolution
      Drawing.answer ⟨markup, a.withDefs (b.defs ++ extra)⟩

/-- Both inputs, the second over the first. -/
def union : Operator := binary fun a b _ => return ((group [] (a.markup ++ b.markup)).text, [])

/-- The first input without what the second covers. -/
def difference : Operator := binary fun a b resolution => masked a b resolution true

/-- The first input where the second covers it. -/
def intersection : Operator := binary fun a b resolution => masked a b resolution false

/-- What only one of the inputs covers. -/
def exclusion : Operator := binary fun a b resolution => do
  let (aOnly, aDefs) ← masked a b resolution true
  let (bOnly, bDefs) ← masked b a resolution true
  return ((group [] (aOnly ++ bOnly)).text, aDefs ++ bDefs)

/-- The input as it is. -/
def output : Operator := fun _ _ inputs => do Drawing.answer (← needed inputs "in")

end VectorGraph.Operator
