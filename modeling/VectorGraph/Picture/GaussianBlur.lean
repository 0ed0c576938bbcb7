import VectorGraph.Picture.Basic

/-!
Gaussian blur, approximated by three box blurs along the rows and three along the columns.

Colours are premultiplied by their opacity first and stay so in the result. All steps are rounded to
bytes; a box of fractional radius weighs its two outermost samples less than the others, and samples
beyond an edge repeat the sample at the edge.
-/
namespace VectorGraph

/-- The product of two bytes taken as fractions of 255, rounded. -/
def mulByte (a b : UInt8) : UInt8 :=
  let t := a.toNat * b.toNat + 128
  ((t / 256 + t) / 256).toUInt8

/-- Each colour multiplied by the opacity. -/
def Pixel.premultiplied (c : Pixel) : Pixel := ⟨mulByte c.r c.a, mulByte c.g c.a, mulByte c.b c.a, c.a⟩

namespace Blur

/-- The weight that counts as one, `2 ^ 24`. -/
def fullWeight : Nat := 16777216

/-- A box of `2 · reach + 1` samples of one weight between two samples with the edge weight; all
weights together are `fullWeight`, or one less. -/
structure Box where
  reach : Nat
  weight : Nat
  edge : Nat
  deriving DecidableEq, Repr

/-- The radius of a box whose threefold application comes close to a Gaussian blur, in single
precision. -/
def boxRadius (radius : Float32) : Float32 :=
  let variance := radius * radius / 3
  let length := (12.0 * variance.toFloat + 1.0).sqrt.toFloat32
  let whole := ((length.toFloat - 1.0) / 2.0).floor.toFloat32
  let next := (whole + 1) * (whole + 1)
  let part := (2 * whole + 1) * (whole * (whole + 1) - 3 * variance) / (6 * (variance - next))
  whole + part

/-- The box for a Gaussian radius. -/
def box (radius : Float) : Box :=
  let r := boxRadius radius.toFloat32
  let reach := r.floor.toUInt32.toNat
  let weight := ((16777216 : Float32) / (r * 2 + 1)).toUInt32.toNat
  ⟨reach, weight, (fullWeight - (2 * reach + 1) * weight) / 2⟩

/-- The sums of the first samples of a line, from none to all of them. -/
def runningSums (samples : Array Nat) : Array Nat :=
  samples.foldl (fun sums v => sums.push (sums.back! + v)) #[0]

/-- One box blur along a line. -/
def boxLine (b : Box) (samples : Array Nat) : Array Nat :=
  let last := samples.size - 1
  let sums := runningSums samples
  Array.ofFn fun i : Fin samples.size =>
    let x := i.val
    let inner := sums[min samples.size (x + b.reach + 1)]! - sums[x - b.reach]!
    let outer := samples[0]! * (b.reach - x) + samples[last]! * (x + b.reach - last)
    let ends := samples[x - (b.reach + 1)]! + samples[min last (x + b.reach + 1)]!
    (b.weight * (inner + outer) + b.edge * ends + fullWeight / 2) / fullWeight

/-- Three box blurs along a line. -/
def smoothLine (b : Box) (samples : Array Nat) : Array Nat := boxLine b (boxLine b (boxLine b samples))

/-- The columns of `width` of some rows. -/
def transposed (width : Nat) (rows : Array (Array Nat)) : Array (Array Nat) :=
  Array.ofFn fun x : Fin width => rows.map fun row => row[x.val]!

/-- One channel of a picture blurred along rows and columns. -/
def smoothChannel (b : Box) (p : Picture) (channel : Pixel → UInt8) : Array (Array Nat) :=
  let rows := Array.ofFn fun y : Fin p.height =>
    Array.ofFn fun x : Fin p.width => (channel (p.pixel x y)).toNat
  let columns := (transposed p.width (rows.map (smoothLine b))).map (smoothLine b)
  transposed p.height columns

end Blur

namespace Picture

/-- The picture with each colour multiplied by the opacity. -/
def premultiplied (p : Picture) : Picture :=
  generate p.width p.height fun x y => (p.pixel x y).premultiplied

/-- Every channel blurred by boxes. -/
def smoothed (p : Picture) (b : Blur.Box) : Picture :=
  let r := Blur.smoothChannel b p (·.r)
  let g := Blur.smoothChannel b p (·.g)
  let bl := Blur.smoothChannel b p (·.b)
  let a := Blur.smoothChannel b p (·.a)
  let value (plane : Array (Array Nat)) (x y : Nat) : UInt8 := ((plane[y]!)[x]!).toUInt8
  generate p.width p.height fun x y => ⟨value r x y, value g x y, value bl x y, value a x y⟩

/-- The picture blurred by a radius, premultiplied; radius zero only premultiplies. -/
def gaussianBlur (p : Picture) (radius : Float) : Picture :=
  if radius == 0 then p.premultiplied else p.premultiplied.smoothed (Blur.box radius)

end Picture

end VectorGraph
