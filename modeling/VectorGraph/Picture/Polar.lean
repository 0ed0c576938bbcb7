import VectorGraph.Number.Pi
import VectorGraph.Picture.Basic

/-!
Remapping between rectangular and polar layouts, each pixel taken from the nearest source pixel.

Wrapping bends the columns of the source around the centre, clockwise from the top, and makes its
rows rings; unwrapping lays rings around the centre out as rows. The offsets move the centre by up to
half the picture.
-/
namespace VectorGraph.Polar

/-- How a picture is remapped. -/
structure Mapping where
  unwrap : Bool
  offsetX : Float
  offsetY : Float
  radialScale : Float
  angularScale : Float

/-- The fraction of a turn, from zero up to one. -/
def turn (x : Float) : Float :=
  let whole := if x < 0 then x.ceil else x.floor
  let rest := x - whole
  if rest == 0 then 0 else if rest < 0 then rest + 1 else rest

/-- Where the pixel at the fractions `u`, `v` of width and height comes from, as fractions too. -/
def Mapping.source (m : Mapping) (u v : Float) : Float × Float :=
  let cx := 0.5 + m.offsetX * 0.5
  let cy := 0.5 + m.offsetY * 0.5
  if m.unwrap then
    let angle := u * pi * 2 / m.angularScale - pi / 2
    let radius := v * 0.5 / m.radialScale
    (cx + radius * angle.cos, cy + radius * angle.sin)
  else
    let dx := u - cx
    let dy := v - cy
    let angle := (Float.atan2 dy dx + pi / 2) / (pi * 2)
    (turn (turn angle * m.angularScale), (dx * dx + dy * dy).sqrt * 2 * m.radialScale)

/-- The index at a fraction of `size`, if it lies inside. -/
def index? (fraction : Float) (size : Nat) : Option Nat :=
  let place := (fraction * Float.ofNat size).floor
  if 0 ≤ place ∧ place < Float.ofNat size then some place.toUInt64.toNat else none

/-- The remapped picture; what comes from outside is clear. -/
def remap (p : Picture) (m : Mapping) : Picture :=
  .generate p.width p.height fun x y =>
    let u := (Float.ofNat x + 0.5) / Float.ofNat p.width
    let v := (Float.ofNat y + 0.5) / Float.ofNat p.height
    let (su, sv) := m.source u v
    match index? su p.width, index? sv p.height with
    | some sx, some sy => p.pixel sx sy
    | _, _ => .clear

end VectorGraph.Polar
