import VectorGraph.Number.Shortest

/-!
The texts of doubles.

* `floatText` writes the shortest digits that read back, positionally while the first digit stands
  between the fourth place after the point and the sixteenth before it, with an exponent of at least
  two digits otherwise; a whole number keeps `.0` and zero keeps its sign.
* `fixedText` writes a given number of places, rounding the exact value half to even.
* `coordinateText` is the compact form used in outlines: at most four places without trailing
  zeros, and never a negative zero.
-/
namespace VectorGraph

/-- `n` as decimal digits, filled up with zeros on the left to `width`. -/
def padded (width n : Nat) : String :=
  let digits := n.repr
  String.ofList (List.replicate (width - digits.length) '0') ++ digits

/-- The exponent as written after the `e`: a sign and at least two digits. -/
def exponentText (e : Int) : String :=
  (if e < 0 then "-" else "+") ++ padded 2 e.natAbs

/-- Shortest digits laid out with a point or an exponent. -/
def Digits.layout (d : Digits) : String :=
  let count : Int := d.digits.length
  if -3 ≤ d.point ∧ d.point ≤ 16 then
    if d.point ≤ 0 then
      "0." ++ String.ofList (List.replicate (-d.point).toNat '0' ++ d.digits)
    else if count ≤ d.point then
      String.ofList (d.digits ++ List.replicate (d.point - count).toNat '0') ++ ".0"
    else
      String.ofList (d.digits.take d.point.toNat) ++ "." ++
        String.ofList (d.digits.drop d.point.toNat)
  else
    let rest := d.digits.drop 1
    String.ofList (d.digits.take 1) ++ (if rest.isEmpty then "" else "." ++ String.ofList rest) ++
      "e" ++ exponentText (d.point - 1)

def signText (negative : Bool) : String := if negative then "-" else ""

/-- The shortest text that reads back as the double. -/
def floatText (x : Float) : String :=
  match FloatView.of x with
  | .notANumber => "nan"
  | .infinite negative => signText negative ++ "inf"
  | .finite b => signText b.negative ++ (Shortest.digits b.mantissa b.exponent).layout

/-- `count` units of `10 ^ -places`, with `places` digits after the point. -/
def fixedDigits (places count : Nat) : String :=
  (count / Nat.pow 10 places).repr ++ "." ++ padded places (count % Nat.pow 10 places)

/-- The value with exactly `places` digits after the point, the exact value rounded half to even. -/
def fixedText (places : Nat) (x : Float) : String :=
  match FloatView.of x with
  | .notANumber => "nan"
  | .infinite negative => signText negative ++ "inf"
  | .finite b => signText b.negative ++ fixedDigits places (b.scaled (Nat.pow 10 places))

/-- `count` ten-thousandths without trailing zeros after the point, and without a point when none
are left. -/
def trimmedDigits (count : Nat) : String :=
  let rest := Shortest.dropZeros (padded 4 (count % 10000)).toList
  (count / 10000).repr ++ (if rest.isEmpty then "" else "." ++ String.ofList rest)

/-- The compact text of a finite value: a whole number has all its digits and no point, any other
is rounded half to even to four places, and what rounds to zero is written `0`. -/
def Binary.coordinate (b : Binary) : String :=
  if b.isWhole then
    signText (b.negative && b.floorAbs != 0) ++ b.floorAbs.repr
  else
    let count := b.scaled 10000
    signText (b.negative && count != 0) ++ trimmedDigits count

/-- The text of a coordinate. -/
def coordinateText (x : Float) : String :=
  match FloatView.of x with
  | .notANumber => "nan"
  | .infinite negative => signText negative ++ "inf"
  | .finite b => b.coordinate

end VectorGraph
