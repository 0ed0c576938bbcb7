import VectorGraph.Number.Binary

/-!
The shortest decimal that reads back as a given double.

The reals that round to `mantissa · 2 ^ exponent` form an interval around it, closed when the
mantissa is even. For one digit, two digits and so on, the decimal grid with that many significant
digits has two neighbours of the value; the first grid with a neighbour in the interval gives the
digits, the nearer neighbour winning and a tie going to the even one.
-/
namespace VectorGraph

/-- Decimal digits `d₁d₂…` standing for `0.d₁d₂… · 10 ^ point`. -/
structure Digits where
  digits : List Char
  point : Int
  deriving DecidableEq, Repr

namespace Shortest

/-- A positive double in quarter steps of its last place: the value is `4 · m`, the interval of
reals that round to it reaches from `4 · m - below` to `4 · m + 2`. -/
structure Interval where
  value : Nat
  below : Nat
  closed : Bool
  /-- The number of quarter steps in `1 / den` of a unit: a magnitude `v` is worth `v · num / den`. -/
  num : Nat
  den : Nat

def interval (m : Nat) (e : Int) : Interval where
  value := 4 * m
  below := if m = Nat.pow 2 52 ∧ -1074 < e then 1 else 2
  closed := m % 2 == 0
  num := Nat.pow 2 (e - 2).toNat
  den := Nat.pow 2 (2 - e).toNat

/-- The position of the first digit: the largest `p` with `10 ^ p` at most the value. -/
def leading (m : Nat) (e : Int) : Int :=
  let bits : Int := (m.log2 : Int) + e
  let guess := Int.fdiv (bits * 30103) 100000
  let reaches (p : Int) : Bool :=
    m * Nat.pow 2 e.toNat * Nat.pow 10 (-p).toNat ≥ Nat.pow 10 p.toNat * Nat.pow 2 (-e).toNat
  if reaches (guess + 1) then guess + 1 else guess

/-- The neighbour of the value on the grid of step `10 ^ unit` that reads back, if one does. -/
def onGrid (i : Interval) (unit : Int) : Option Nat :=
  let grow := Nat.pow 10 (-unit).toNat
  let shrink := Nat.pow 10 unit.toNat
  -- a count `c` of grid steps is worth `c · step` where the value is worth `value`
  let value := i.value * i.num * grow
  let step := shrink * i.den
  let low := (i.value - i.below) * i.num * grow
  let high := (i.value + 2) * i.num * grow
  let inside (c : Nat) : Bool :=
    if i.closed then low ≤ c * step && c * step ≤ high else low < c * step && c * step < high
  let floor := value / step
  let rest := 2 * (value % step)
  match inside floor, inside (floor + 1) with
  | true, true =>
    some (if rest < step then floor else if step < rest then floor + 1 else floor + floor % 2)
  | true, false => some floor
  | false, true => some (floor + 1)
  | false, false => none

/-- Tries grids with one digit more each time, `fuel` of them. -/
def search (i : Interval) (lead : Int) : Nat → Nat → Nat × Int
  | 0, _ => (0, 0)
  | fuel + 1, count =>
    let unit := lead + 1 - count
    match onGrid i unit with
    | some c => (c, unit)
    | none => search i lead fuel (count + 1)

def dropZeros (digits : List Char) : List Char :=
  (digits.reverse.dropWhile (· == '0')).reverse

/-- The shortest digits of `m · 2 ^ e` for a positive `m`; zero has the one digit `0`. -/
def digits (m : Nat) (e : Int) : Digits :=
  if m = 0 then ⟨['0'], 1⟩
  else
    let (count, unit) := search (interval m e) (leading m e) 17 1
    let all := count.repr.toList
    ⟨dropZeros all, all.length + unit⟩

end Shortest

end VectorGraph
