import VectorGraph.Operator.Shapes
import VectorGraph.Picture.DataUri

/-!
Operators that fill the picture: images, gradients, colours, brightness and opacity. Colour and
opacity change their input when they have one.
-/
namespace VectorGraph.Operator

open Markup

/-- Embeds an image; a source that is no readable image draws nothing. -/
def image : Operator := fun c params _ => do
  let source ← Params.Image.imageSrc.read params
  if source = "" then Drawing.answer .empty
  else
    match DataUri.decode source with
    | .ok _ => Drawing.answer ⟨(Markup.image source c.resolution false).text, []⟩
    | .error fault =>
      return .done {
        log := [c.warning "Image node source is not a readable image" fault.message]
        result := .ok .empty }

/-- A stop of a gradient as read from a document. -/
structure Stop where
  offset : Float
  color : String
  opacity : Float

/-- The hexadecimal digits of ASCII. -/
def isHexDigit (c : Char) : Bool := (hexDigit? c).isSome

/-- Whether a text is `#` with three or six hexadecimal digits; one line end may follow. -/
def isHexColor (s : String) : Bool :=
  match s.toList with
  | '#' :: rest =>
    let digits := if rest.getLast? = some '\n' then rest.dropLast else rest
    digits.all isHexDigit && (digits.length == 3 || digits.length == 6)
  | _ => false

/-- A number brought between zero and one; what compares with nothing becomes zero. -/
def unitInterval (x : Float) : Float := FieldType.atMost (some 1.0) (FieldType.atLeast (some 0.0) x)

/-- The number that a value is, brought between zero and one. -/
def unitOf? (value : Json) : Except Failure (Option Float) :=
  match value.scalar? with
  | none => .ok none
  | some a =>
    match a.toFloat? with
    | some x => .ok (some (unitInterval x))
    | none => .error .tooLarge

/-- A stop, if the entry has a number as its offset. -/
def readStop (entry : Json) : Except Failure (Option Stop) := do
  match ← unitOf? ((entry.get? "offset").getD .null) with
  | none => return none
  | some offset =>
    let color :=
      match entry.get? "color" with
      | some (.text s) => if isHexColor s then s else "#000000"
      | _ => "#000000"
    let opacity ← unitOf? ((entry.get? "opacity").getD .null)
    return some ⟨offset, color, opacity.getD 1.0⟩

/-- The stops of a gradient in the order of their offsets. -/
def readStops (raw : List Json) : Except Failure (List Stop) := do
  return ((← raw.mapM readStop).filterMap id).mergeSort fun a b => a.offset ≤ b.offset

/-- A square filled with a linear gradient along a direction. -/
def gradient : Operator := fun c params _ => do
  let raw ← Params.Gradient.stops.read params
  let x ← Params.Gradient.x.read params
  let y ← Params.Gradient.y.read params
  let _ ← Params.Gradient.power.read params
  let found ← readStops raw
  let stops ← if found.isEmpty then readStops Params.defaultStops else pure found
  let dx := if x == 0 && y == 0 then 1.0 else x
  let id ← Drawing.mint "grad"
  let definition := Markup.element "linearGradient"
    [("id", id), ("x1", coordinateText (0.5 - dx / 2)), ("y1", coordinateText (0.5 - y / 2)),
      ("x2", coordinateText (0.5 + dx / 2)), ("y2", coordinateText (0.5 + y / 2))]
    (stops.map fun s =>
      gradientStop (coordinateText (s.offset * 100) ++ "%") (coordinateText s.opacity) s.color)
  Drawing.answer ⟨(square [] c.resolution (reference id)).text, [definition.text]⟩

/-- A filter that replaces all colours and keeps the opacity. -/
def recolorFilter (id matrix : String) : Markup :=
  .element "filter" [("id", id)]
    [leaf "feColorMatrix" [("type", "matrix"), ("in", "SourceGraphic"), ("values", matrix)]]

/-- The matrix that sets the colour to given fractions. -/
def colorMatrix (r g b : String) : String :=
  "0 0 0 0 " ++ r ++ " 0 0 0 0 " ++ g ++ " 0 0 0 0 " ++ b ++ " 0 0 0 1 0"

def rgbText (r g b : Int) : String :=
  "rgb(" ++ toString r ++ "," ++ toString g ++ "," ++ toString b ++ ")"

/-- Recolours the input, or fills the picture. -/
def color : Operator := fun c params inputs => do
  let r ← Params.Color.r.read params
  let g ← Params.Color.g.read params
  let b ← Params.Color.b.read params
  match inputs.at? "in" with
  | none => Drawing.answer ⟨(square [] c.resolution (rgbText r g b)).text, []⟩
  | some source =>
    let matrix := colorMatrix (← ratioText r 255) (← ratioText g 255) (← ratioText b 255)
    let id ← Drawing.mint "color"
    Drawing.answer ⟨(group [("filter", reference id)] source.markup).text,
      source.withDefs [(recolorFilter id matrix).text]⟩

/-- Fills the picture with a grey. -/
def brightness : Operator := fun c params _ => do
  let value ← Params.Value.value.read params
  let v := (nearestInt? (value * 255)).getD 0
  Drawing.answer ⟨(square [] c.resolution (rgbText v v v)).text, []⟩

/-- Makes the input translucent, or fills the picture with a translucent white. -/
def opacity : Operator := fun c params inputs => do
  let text := coordinateText (← Params.Alpha.value.read params)
  match inputs.at? "in" with
  | none => Drawing.answer ⟨(square [("opacity", text)] c.resolution "white").text, []⟩
  | some source => Drawing.answer ⟨(group [("opacity", text)] source.markup).text, source.defs⟩

end VectorGraph.Operator
