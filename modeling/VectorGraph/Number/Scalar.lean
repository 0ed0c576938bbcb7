import VectorGraph.Number.Binary

/-!
Numbers as they stand in a document: integers without bound beside doubles.

Integers stay exact among themselves and turn into the nearest double when they meet one. An
integer too large for that leaves the outcome `tooLarge`, which every later operation keeps, so a
formula can be written without a check at each step and refused once at its end.
-/
namespace VectorGraph

inductive Scalar where
  | whole (n : Int)
  | real (x : Float)
  | tooLarge
  deriving Inhabited

namespace Scalar

/-- The nearest double; nothing for what no double can hold. -/
def toFloat? : Scalar → Option Float
  | .whole n => doubleOfInt n
  | .real x => some x
  | .tooLarge => none

/-- Applies the exact operation to two integers and the rounded one as soon as a double is met. -/
def combine (exact : Int → Int → Int) (rounded : Float → Float → Float) : Scalar → Scalar → Scalar
  | .whole a, .whole b => .whole (exact a b)
  | a, b =>
    match a.toFloat?, b.toFloat? with
    | some x, some y => .real (rounded x y)
    | _, _ => .tooLarge

instance : Add Scalar := ⟨combine (· + ·) (· + ·)⟩
instance : Sub Scalar := ⟨combine (· - ·) (· - ·)⟩
instance : Mul Scalar := ⟨combine (· * ·) (· * ·)⟩
instance (n : Nat) : OfNat Scalar n := ⟨.whole n⟩

/-- The double that a formula has when it turns its argument into a double first. -/
def mapFloat (f : Float → Float) (a : Scalar) : Scalar :=
  match a.toFloat? with
  | some x => .real (f x)
  | none => .tooLarge

/-- Half of a number, as a double: half of an integer is rounded once, after the division. -/
def half : Scalar → Scalar
  | .whole n =>
    match nearestDouble (n < 0) n.natAbs 2 with
    | some x => .real x
    | none => .tooLarge
  | a => a.mapFloat (· / 2)

/-- The exact comparison of an integer with a finite double. -/
def compareWhole (n : Int) (b : Binary) : Ordering :=
  let m : Int := if b.negative then -(b.mantissa : Int) else b.mantissa
  match b.exponent with
  | .ofNat e => compare n (m * (Nat.pow 2 e : Nat))
  | .negSucc e => compare (n * (Nat.pow 2 (e + 1) : Nat)) m

/-- Whether a number is at most a double; integers are compared exactly. -/
def le (a : Scalar) (bound : Float) : Bool :=
  match a with
  | .whole n =>
    match FloatView.of bound with
    | .finite b => (compareWhole n b).isLE
    | .infinite negative => !negative
    | .notANumber => false
  | .real x => x ≤ bound
  | .tooLarge => false

/-- Whether a number is less than a double; integers are compared exactly. -/
def lt (a : Scalar) (bound : Float) : Bool :=
  match a with
  | .whole n =>
    match FloatView.of bound with
    | .finite b => (compareWhole n b).isLT
    | .infinite negative => !negative
    | .notANumber => false
  | .real x => x < bound
  | .tooLarge => false

end Scalar

end VectorGraph
