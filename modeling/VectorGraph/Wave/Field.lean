import VectorGraph.Failure
import VectorGraph.Number.Pi
import VectorGraph.Number.Rounding
import VectorGraph.Wave.Mulberry

/-!
Wave fields: oscillators summed along the columns, added to a base field and thresholded.

The formulas hold in any arithmetic with the four operations, an order and decimal constants; the
sine is a parameter. A field of doubles is `Wave.alphaRows`.
-/
namespace VectorGraph

/-- A phase in radians and a factor on the frequency. -/
structure Oscillator (α : Type) where
  phase : α
  speed : α

/-- How a value becomes coverage: by a step at a threshold, or by a ramp. -/
inductive Threshold (α : Type) where
  | step (value : α)
  | ramp (lower width : α)

structure Wave (α : Type) where
  oscillators : List (Oscillator α)
  frequency : α
  amplitude : α
  threshold : Threshold α
  square : Bool

section

variable {α : Type} [Add α] [Sub α] [Mul α] [Div α] [NatCast α] [OfScientific α]
  [LT α] [DecidableLT α] [LE α] [DecidableLE α]

/-- A step for a softness up to a thousandth, a ramp from `threshold - softness` to
`threshold + softness` otherwise. -/
@[specialize] def Threshold.of (threshold softness : α) : Threshold α :=
  if softness ≤ (0.001 : α) then .step threshold
  else .ramp (threshold - softness) (threshold + softness - (threshold - softness))

/-- The coverage of a value. -/
@[specialize] def Threshold.coverage (t : Threshold α) (value : α) : α :=
  match t with
  | .step threshold => if threshold < value then ((1 : Nat) : α) else ((0 : Nat) : α)
  | .ramp lower width => clip ((0 : Nat) : α) ((1 : Nat) : α) ((value - lower) / width)

namespace Wave

/-- One, zero, or minus one by the sign of a value. -/
@[specialize] def signOf (x : α) : α :=
  if ((0 : Nat) : α) < x then ((1 : Nat) : α)
  else if x < ((0 : Nat) : α) then ((0 : Nat) : α) - ((1 : Nat) : α)
  else x

/-- What one oscillator adds at the fraction `x` of the width. -/
@[specialize] def oscillation (sine : α → α) (pi frequency : α) (square : Bool) (x : α)
    (o : Oscillator α) : α :=
  let value := sine (x * frequency * pi * ((2 : Nat) : α) * o.speed + o.phase)
  if square then signOf value else value

/-- What the sum of oscillators is divided by: six tenths of their number, but at least one. -/
@[specialize] def normalization (count : Nat) : α :=
  let scaled : α := (count : α) * 0.6
  if ((1 : Nat) : α) < scaled then scaled else ((1 : Nat) : α)

/-- The combined signal of the oscillators at column `x` of `width`. -/
@[specialize] def columnNoise (sine : α → α) (pi frequency : α) (square : Bool)
    (oscillators : List (Oscillator α)) (width x : Nat) : α :=
  let position : α := (x : α) / (width : α)
  let total := oscillators.foldl
    (fun sum o => sum + oscillation sine pi frequency square position o) ((0 : Nat) : α)
  total / normalization oscillators.length

/-- The base field when none is given: one in the top row, falling with every row. -/
@[specialize] def gradient (resolution y : Nat) : α := ((1 : Nat) : α) - (y : α) / (resolution : α)

/-- The coverage at a place with the given base value, in a column with the given noise, in steps
of a byte. -/
@[specialize] def level (w : Wave α) (noise base : α) : α :=
  w.threshold.coverage (base + noise * w.amplitude) * ((255 : Nat) : α)

/-- The combined signal of every column. -/
@[specialize] def signal (sine : α → α) (pi : α) (w : Wave α) (width : Nat) : Array α :=
  Array.ofFn fun x : Fin width =>
    columnNoise sine pi w.frequency w.square w.oscillators width x

end Wave

/-- A field to which a wave is added, as values in columns and rows. -/
structure BaseField (α : Type) where
  width : Nat
  height : Nat
  value : Nat → Nat → α

/-- The field of a given side that falls from row to row. -/
@[specialize] def BaseField.falling (side : Nat) : BaseField α :=
  ⟨side, side, fun _ y => Wave.gradient side y⟩

/-- The opacity at every place of a field, row by row; `toByte` rounds a number of steps of a byte. A
single column stands for any number of columns, be it of the wave or of the base; other numbers have
to be equal. -/
@[specialize] def Wave.rows (sine : α → α) (pi : α) (toByte : α → UInt8) (w : Wave α)
    (resolution : Nat) (base : BaseField α) : Except Failure (Array (Array UInt8)) :=
  if resolution = base.width || resolution = 1 || base.width = 1 then
    let noise := w.signal sine pi resolution
    let width := if resolution = 1 then base.width else resolution
    .ok (Array.ofFn fun y : Fin base.height =>
      Array.ofFn fun x : Fin width =>
        let column := if resolution = 1 then 0 else x.val
        toByte (w.level (noise[column]?.getD ((0 : Nat) : α))
          (base.value (if base.width = 1 then 0 else x) y)))
  else .error .outsideDomain

end

/-- The threshold for two numbers of a document. The ends of the ramp are exact as long as both numbers
are integers. -/
def Threshold.ofScalars (threshold softness : Scalar) : Except Failure (Threshold Float) := do
  if softness.le 0.001 then return .step (← threshold.double)
  let lower := threshold - softness
  let width := threshold + softness - lower
  return .ramp (← lower.double) (← width.double)

namespace Wave

/-- The oscillators drawn for a seed, the phase of each before its speed. -/
def drawOscillators (seed : Int) (count : Nat) : List (Oscillator Float) :=
  pairUp (Mulberry.draws seed (2 * count))
where
  pairUp : List Nat → List (Oscillator Float)
    | phase :: speed :: rest =>
      ⟨Mulberry.fraction phase * pi * 2, 0.5 + Mulberry.fraction speed * 1.5⟩ :: pairUp rest
    | _ => []

/-- The number of places along a side; a negative length has none to offer, and neither has one that
takes more than 63 bits. -/
def places (side : Int) : Except Failure Nat :=
  if 0 ≤ side && side < (Nat.pow 2 63 : Nat) then .ok side.toNat else .error .outsideDomain

/-- The combined signal of every column, in doubles. -/
def columns (w : Wave Float) (width : Nat) : Array Float := w.signal Float.sin pi width

/-- The opacity at every place of a field, in doubles. -/
def alphaRows (w : Wave Float) (resolution : Nat) (base : BaseField Float) :
    Except Failure (Array (Array UInt8)) :=
  w.rows Float.sin pi nearestByte resolution base

end Wave

end VectorGraph
