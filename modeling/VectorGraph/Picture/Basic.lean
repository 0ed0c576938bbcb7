/-!
Pictures: rectangles of RGBA pixels, row by row.
-/
namespace VectorGraph

structure Pixel where
  r : UInt8
  g : UInt8
  b : UInt8
  a : UInt8
  deriving DecidableEq, Repr, Inhabited

namespace Pixel

/-- Colourless and fully transparent. -/
def clear : Pixel := ⟨0, 0, 0, 0⟩

end Pixel

structure Picture where
  width : Nat
  height : Nat
  pixels : Array Pixel
  size_eq : pixels.size = width * height

namespace Picture

/-- The picture whose pixel at column `x` and row `y` is `f x y`. -/
def generate (width height : Nat) (f : Nat → Nat → Pixel) : Picture where
  width
  height
  pixels := Array.ofFn fun i : Fin (width * height) => f (i % width) (i / width)
  size_eq := by simp

instance : Inhabited Picture := ⟨generate 0 0 fun _ _ => .clear⟩

/-- The pixel at column `x` and row `y`; outside the picture it is clear. -/
def at? (p : Picture) (x y : Nat) : Option Pixel :=
  if x < p.width then p.pixels[y * p.width + x]? else none

def pixel (p : Picture) (x y : Nat) : Pixel := (p.at? x y).getD .clear

/-- The bytes of the pixels in the order red, green, blue, alpha. -/
def bytes (p : Picture) : ByteArray :=
  p.pixels.foldl (fun out c => (((out.push c.r).push c.g).push c.b).push c.a)
    (ByteArray.emptyWithCapacity (4 * p.width * p.height))

/-- The picture with the given bytes, if their number is right. -/
def ofBytes? (width height : Nat) (bytes : ByteArray) : Option Picture :=
  if bytes.size = 4 * (width * height) then
    some {
      width
      height
      pixels := Array.ofFn fun i : Fin (width * height) =>
        ⟨bytes.get! (4 * i), bytes.get! (4 * i + 1), bytes.get! (4 * i + 2), bytes.get! (4 * i + 3)⟩
      size_eq := by simp }
  else none

end Picture

end VectorGraph
