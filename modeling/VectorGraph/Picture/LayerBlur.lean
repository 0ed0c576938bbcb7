import VectorGraph.Failure
import VectorGraph.Number.Rounding
import VectorGraph.Picture.GaussianBlur

/-!
Blur that grows along an axis from a sharp end to a blurred one.

Layer `i` of `n` is the picture blurred by `i / n` of the radius; along the axis it fades in between
`(i - 1) / n` and `i / n`. The layers are laid over the sharp picture one after the other, all colours
being premultiplied. The formulas hold in any arithmetic, and for any blur.
-/
namespace VectorGraph

/-- Premultiplied colour and opacity, as fractions of one. -/
structure Tint (α : Type) where
  r : α
  g : α
  b : α
  a : α

namespace Tint

section

variable {α : Type} [Add α] [Sub α] [Mul α] [Div α] [NatCast α]

/-- Colour and opacity times a factor. -/
@[specialize] def fade (c : Tint α) (m : α) : Tint α := ⟨c.r * m, c.g * m, c.b * m, c.a * m⟩

/-- A layer laid over what is there. -/
@[specialize] def laidOver (layer below : Tint α) : Tint α :=
  let rest := ((1 : Nat) : α) - layer.a
  ⟨layer.r + below.r * rest, layer.g + below.g * rest, layer.b + below.b * rest,
    layer.a + below.a * rest⟩

/-- Layers laid over what is there in turn, each faded by its mask. -/
@[specialize] def stack (base : Tint α) (layers : List (Tint α × α)) : Tint α :=
  layers.foldl (fun below l => laidOver (l.1.fade l.2) below) base

/-- A pixel whose colours are not premultiplied yet. -/
@[specialize] def ofPixel (c : Pixel) : Tint α :=
  let part (v : UInt8) : α := (v.toNat : α) / ((255 : Nat) : α)
  let a := part c.a
  ⟨part c.r * a, part c.g * a, part c.b * a, a⟩

/-- A pixel whose colours are premultiplied. -/
@[specialize] def ofPremultiplied (c : Pixel) : Tint α :=
  let part (v : UInt8) : α := (v.toNat : α) / ((255 : Nat) : α)
  ⟨part c.r, part c.g, part c.b, part c.a⟩

/-- The tints of a picture whose colours are premultiplied, at every column and row. -/
@[specialize] def ofPicture (p : Picture) (x y : Nat) : Tint α := ofPremultiplied (p.pixel x y)

variable [LT α] [DecidableLT α]

/-- The pixel with plain colours again; `toByte` rounds a number of steps of a byte. Without any
opacity the colours are zero. -/
@[specialize] def toPixel (toByte : α → UInt8) (c : Tint α) : Pixel :=
  let plain (v : α) : α := if ((0 : Nat) : α) < c.a then v / c.a else ((0 : Nat) : α)
  let level (v : α) : UInt8 := toByte (v * ((255 : Nat) : α))
  ⟨level (plain c.r), level (plain c.g), level (plain c.b), level c.a⟩

end

end Tint

namespace LayerBlur

/-- An axis in the plane of a picture: where it begins, how far it goes, and the square of its length.
-/
structure Axis (α : Type) where
  x : α
  y : α
  dx : α
  dy : α
  square : α

section

variable {α : Type} [Add α] [Sub α] [Mul α] [Div α] [NatCast α] [OfScientific α]
  [LT α] [DecidableLT α]

/-- The axis between two points. -/
@[specialize] def Axis.between {β : Type} [Add β] [Sub β] [Mul β] (a b : β × β) : Axis β :=
  let dx := b.1 - a.1
  let dy := b.2 - a.2
  ⟨a.1, a.2, dx, dy, dx * dx + dy * dy⟩

/-- Where the middle of a pixel lies along the axis, its ends being zero and one. -/
@[specialize] def Axis.position (axis : Axis α) (x y : Nat) : α :=
  (((x : α) + 0.5 - axis.x) * axis.dx + ((y : α) + 0.5 - axis.y) * axis.dy) / axis.square

/-- Zero before the position `start`, one behind it by `width`, and a ramp between. -/
@[specialize] def ramp (start width position : α) : α :=
  clip ((0 : Nat) : α) ((1 : Nat) : α) ((position - start) / width)

/-- The mask of layer `i` of `count`, counted from one. -/
@[specialize] def mask (axis : Axis α) (count i x y : Nat) : α :=
  let start : α := ((i - 1 : Nat) : α) / (count : α)
  ramp start ((i : α) / (count : α) - start) (axis.position x y)

/-- What a blur makes of a picture: a tint at every column and row. -/
abbrev Layer (α : Type) := Nat → Nat → Tint α

/-- The blurred layers, numbered from one: layer `i` of `steps` is blurred by `i / steps` of the
radius. -/
@[specialize] def layers (blur : α → Layer α) (radius : α) (steps : Nat) : List (Nat × Layer α) :=
  (List.range steps).map fun k => (k + 1, blur (((k + 1 : Nat) : α) / (steps : α) * radius))

/-- The pixel at a place: the source with the layers over it, all in column `x` and row `y`, each
under column `place` of its mask. -/
@[specialize] def pixelAt (toByte : α → UInt8) (axis : Axis α) (source : Picture)
    (layers : List (Nat × Layer α)) (x place y : Nat) : Pixel :=
  ((Tint.ofPixel (source.pixel x y)).stack
    (layers.map fun (i, layer) => (layer x y, mask axis layers.length i place y))).toPixel toByte

/-- The picture blurred along the axis. The masks are squares on the height of the picture. A picture
of one column is repeated under all columns of a mask, and a mask of one pixel over all columns of a
picture. -/
@[specialize] def blend (toByte : α → UInt8) (blur : α → Layer α) (axis : Axis α) (radius : α)
    (steps : Nat) (source : Picture) : Picture :=
  let layers := layers blur radius steps
  let width := if steps ≠ 0 && source.width = 1 then source.height else source.width
  .generate width source.height fun x y =>
    pixelAt toByte axis source layers (if source.width = 1 then 0 else x)
      (if source.height = 1 then 0 else x) y

end

/-- Whether the hypotenuse over two legs, rounded to a double, is less than one. The doubles next to
one are `1` and `1 - 2 ^ -53`, so it is less than one exactly if it lies below `1 - 2 ^ -54`, the tie
between them going to one; legs that are no finite numbers have no such hypotenuse. -/
def isShort (x y : FloatView) : Bool :=
  match x, y with
  | .finite x, .finite y =>
    (x.units * x.units + y.units * y.units) * Nat.pow 4 54 <
      (Nat.pow 2 54 - 1) * (Nat.pow 2 54 - 1) * Nat.pow 4 1074
  | _, _ => false

/-- An axis in doubles. -/
def Axis.doubles (axis : Axis Scalar) : Except Failure (Axis Float) := do
  return ⟨← axis.x.double, ← axis.y.double, ← axis.dx.double, ← axis.dy.double, ← axis.square.double⟩

/-- Whether an axis is shorter than a pixel. -/
def Axis.isShort (axis : Axis Scalar) : Except Failure Bool := do
  return LayerBlur.isShort (FloatView.of (← axis.dx.double)) (FloatView.of (← axis.dy.double))

/-- The picture blurred along the axis from `a` to `b`, in doubles; unchanged when the points are less
than a pixel apart or the radius is less than half a pixel. A picture of more than one column and row
has to be a square. -/
def apply (p : Picture) (radius : Scalar) (a b : Scalar × Scalar) (steps : Nat) :
    Except Failure Picture := do
  let axis := Axis.between a b
  if (← axis.isShort) || radius.lt 0.5 then return p
  if steps ≠ 0 && p.width ≠ p.height && p.width ≠ 1 && p.height ≠ 1 then throw .outsideDomain
  let axis ← axis.doubles
  return blend nearestByte (fun r => Tint.ofPicture (p.gaussianBlur r)) axis (← radius.double) steps p

end LayerBlur

end VectorGraph
