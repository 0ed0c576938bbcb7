/-!
Doubles as exact binary fractions.

A finite double is `± mantissa · 2 ^ exponent`; `FloatView.of` reads these three off its bits, so
that every rule about the text or the order of doubles can be said over `Nat` and `Int`. In the
other direction `nearestDouble` rounds a fraction of two natural numbers to a double, a tie going to
the even neighbour, and says when the fraction lies beyond the largest double.
-/
namespace VectorGraph

/-- A finite double taken apart: its value is `± mantissa · 2 ^ exponent`. -/
structure Binary where
  negative : Bool
  mantissa : Nat
  exponent : Int
  deriving DecidableEq, Repr

/-- What the bits of a double stand for. -/
inductive FloatView where
  | finite (value : Binary)
  | infinite (negative : Bool)
  | notANumber
  deriving DecidableEq, Repr

namespace FloatView

/-- Reads the sign, the exponent field and the fraction field of a 64-bit pattern. -/
def ofBits (bits : Nat) : FloatView :=
  let negative := bits / Nat.pow 2 63 % 2 == 1
  let field : Nat := bits / Nat.pow 2 52 % Nat.pow 2 11
  let fraction : Nat := bits % Nat.pow 2 52
  if field = 2047 then
    if fraction = 0 then .infinite negative else .notANumber
  else if field = 0 then
    .finite ⟨negative, fraction, -1074⟩
  else
    .finite ⟨negative, Nat.pow 2 52 + fraction, (field : Int) - 1075⟩

def of (x : Float) : FloatView := ofBits x.toBits.toNat

end FloatView

/-- The quotient `num / den` rounded to the nearest natural number, a half going to the even one. -/
def roundHalfEven (num den : Nat) : Nat :=
  let quotient := num / den
  let rest := 2 * (num % den)
  if rest < den then quotient
  else if den < rest then quotient + 1
  else quotient + quotient % 2

namespace Binary

/-- The magnitude times `factor`, rounded to the nearest natural number, ties to even. -/
def scaled (b : Binary) (factor : Nat) : Nat :=
  match b.exponent with
  | .ofNat e => b.mantissa * Nat.pow 2 e * factor
  | .negSucc e => roundHalfEven (b.mantissa * factor) (Nat.pow 2 (e + 1))

/-- The magnitude in units of the smallest double, `2 ^ -1074`. -/
def units (b : Binary) : Nat := b.mantissa * Nat.pow 2 (b.exponent + 1074).toNat

/-- The whole part of the magnitude. -/
def floorAbs (b : Binary) : Nat :=
  match b.exponent with
  | .ofNat e => b.mantissa * Nat.pow 2 e
  | .negSucc e => b.mantissa / Nat.pow 2 (e + 1)

/-- Whether the value is a whole number. -/
def isWhole (b : Binary) : Bool :=
  match b.exponent with
  | .ofNat _ => true
  | .negSucc e => b.mantissa % Nat.pow 2 (e + 1) == 0

/-- The value with its fraction dropped. -/
def truncate (b : Binary) : Int :=
  if b.negative then -(b.floorAbs : Int) else b.floorAbs

end Binary

/-- A fraction `num / den` as `m · 2 ^ e` with at most 53 bits in `m`, rounded half to even and with
`e` no smaller than a double allows; nothing when the result would exceed every double. -/
def nearestBinary (num den : Nat) : Option (Nat × Int) :=
  if num = 0 ∨ den = 0 then some (0, -1074)
  else
    let guess : Int := (num.log2 : Int) - den.log2 - 53
    let up (e : Int) : Nat := num * Nat.pow 2 (-e).toNat
    let down (e : Int) : Nat := den * Nat.pow 2 e.toNat
    let fitted := if up guess / down guess < Nat.pow 2 53 then guess else guess + 1
    let e := max fitted (-1074)
    let m := roundHalfEven (up e) (down e)
    if Nat.pow 2 1024 ≤ m * Nat.pow 2 e.toNat then none else some (m, e)

/-- The double `m · 2 ^ e`, for `m` from `2 ^ 52` to `2 ^ 53`, or below that where `e` is the least exponent. The
leading bit of `m` counts up the exponent field. -/
def doubleOfBinary (m : Nat) (e : Int) : Float :=
  Float.ofBits ((e + 1074).toNat * Nat.pow 2 52 + m).toUInt64

/-- The double nearest to `num / den`; nothing when that lies beyond the largest double. -/
def nearestDouble (negative : Bool) (num den : Nat) : Option Float :=
  (nearestBinary num den).map fun (m, e) =>
    let magnitude := doubleOfBinary m e
    if negative then -magnitude else magnitude

/-- The double nearest to an integer; nothing when it lies beyond the largest double. -/
def doubleOfInt (n : Int) : Option Float := nearestDouble (n < 0) n.natAbs 1

/-- Whether the double is neither infinite nor without a value. -/
def isFiniteDouble (x : Float) : Bool :=
  match FloatView.of x with
  | .finite _ => true
  | _ => false

end VectorGraph
