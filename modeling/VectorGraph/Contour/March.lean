import VectorGraph.Contour.SegmentMap
import VectorGraph.Failure
import VectorGraph.Number.Text
import VectorGraph.Number.Scalar

/-!
Marching squares.

A cell of a grid lies between four samples; its case tells which of them are filled. Every case has
up to two directed segments between midpoints of the cell's sides, with the filled samples always on
the same side. Points are counted in half steps of the grid.
-/
namespace VectorGraph.Contour

/-- Samples that are filled or not, in columns and rows. -/
structure Grid where
  width : Nat
  height : Nat
  filled : Nat → Nat → Bool

/-- A point in half steps of the grid. -/
abbrev HalfPoint := Nat × Nat

/-- The segments of a case, relative to the upper left sample of the cell. -/
def caseSegments : Nat → List (HalfPoint × HalfPoint)
  | 1 => [((0, 1), (1, 2))]
  | 2 => [((1, 2), (2, 1))]
  | 3 => [((0, 1), (2, 1))]
  | 4 => [((2, 1), (1, 0))]
  | 5 => [((0, 1), (1, 2)), ((2, 1), (1, 0))]
  | 6 => [((1, 2), (1, 0))]
  | 7 => [((0, 1), (1, 0))]
  | 8 => [((1, 0), (0, 1))]
  | 9 => [((1, 0), (1, 2))]
  | 10 => [((1, 0), (0, 1)), ((1, 2), (2, 1))]
  | 11 => [((1, 0), (2, 1))]
  | 12 => [((2, 1), (0, 1))]
  | 13 => [((2, 1), (1, 2))]
  | 14 => [((1, 2), (0, 1))]
  | _ => []

/-- The case of the cell whose upper left sample stands at `x`, `y`: eight for the upper left
sample, four for the upper right, two for the lower right and one for the lower left one. -/
def cellCase (g : Grid) (x y : Nat) : Nat :=
  (g.filled x y).toNat * 8 + (g.filled (x + 1) y).toNat * 4 +
    (g.filled (x + 1) (y + 1)).toNat * 2 + (g.filled x (y + 1)).toNat

/-- The segments of one cell. -/
def cellSegments (g : Grid) (x y : Nat) : List (HalfPoint × HalfPoint) :=
  (caseSegments (cellCase g x y)).map fun (a, b) =>
    ((2 * x + a.1, 2 * y + a.2), (2 * x + b.1, 2 * y + b.2))

/-- The segments of all cells, row by row. -/
def segments (g : Grid) : List (HalfPoint × HalfPoint) :=
  (List.range (g.height - 1)).flatMap fun y =>
    (List.range (g.width - 1)).flatMap fun x => cellSegments g x y

/-- The segments by the keys of their starting points. -/
def marchWith {κ : Type} [BEq κ] [Hashable κ] (key : HalfPoint → κ) (g : Grid) : SegmentMap κ :=
  .ofList ((segments g).map fun s => (key s.1, key s.2))

/-- The scaled coordinate of a point. Whole multiples of a whole scale are kept in 64 bits. -/
def scaled (scale : Scalar) (n : Nat) : Scalar :=
  match scale, n % 2 with
  | .whole scale, 0 => .whole (((n / 2 : Nat) * scale).bmod (Nat.pow 2 64))
  | _, 0 => .whole (n / 2) * scale
  | _, _ => .real (Float.ofNat n / 2) * scale

/-- A coordinate with two places. -/
def coordinateKey (scale : Scalar) (n : Nat) : String :=
  fixedText 2 ((scaled scale n).toFloat?.getD 0)

/-- A point as text: both coordinates, scaled, with a comma between them. -/
def pointKey (scale : Scalar) (p : HalfPoint) : String :=
  coordinateKey scale p.1 ++ "," ++ coordinateKey scale p.2

/-- Whether a scale is a double or an integer of 64 bits. -/
def isScale : Scalar → Bool
  | .whole n => n.bmod (Nat.pow 2 64) == n
  | .real _ => true
  | .tooLarge => false

/-- The segments of a grid by the texts of their starting points. -/
def march (g : Grid) (scale : Scalar) : Except Failure (SegmentMap String) :=
  if isScale scale || (segments g).isEmpty then .ok (marchWith (pointKey scale) g)
  else .error .tooLarge

end VectorGraph.Contour
