import VectorGraph.Number.Binary

/-!
Rounding and clamping of measured values.
-/
namespace VectorGraph

instance natCastFloat : NatCast Float := ⟨Float.ofNat⟩

/-- The value brought into `lo … hi`; a value that is not outside stays as it is, and so does one that
compares with nothing. -/
@[specialize] def clip {α : Type} [LT α] [DecidableLT α] (lo hi x : α) : α :=
  if x < lo then lo else if hi < x then hi else x

/-- The nearest integer, a half going to the even one; an infinite double or one without a value
gives nothing. -/
def nearestInt? (x : Float) : Option Int :=
  match FloatView.of x with
  | .finite b => some (if b.negative then -(b.scaled 1 : Int) else b.scaled 1)
  | _ => none

/-- An integer brought into the range of a byte. -/
def byteOfInt (n : Int) : UInt8 := (clip 0 255 n).toNat.toUInt8

/-- The byte nearest to a double; what has no value gives zero. -/
def nearestByte (x : Float) : UInt8 :=
  if 255 ≤ x then 255 else ((nearestInt? x).map byteOfInt).getD 0

/-- The byte that remains when the fraction is dropped. -/
def truncatedByte (x : Float) : UInt8 :=
  if 255 ≤ x then 255
  else if 0 ≤ x then x.toUInt8
  else 0

end VectorGraph
