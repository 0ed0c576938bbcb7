import VectorGraph.Failure
import VectorGraph.Number.Rounding
import VectorGraph.Picture.Basic

/-!
Pixel buffers as a back-end delivers them, their reading as pictures, and what else a back-end may do.
-/
namespace VectorGraph

inductive Buffer where
  | bytes (values : ByteArray)
  /-- Doubles, brought into the range of a byte with their fractions dropped. -/
  | reals (values : Array Float)
  /-- Integers, brought into the range of a byte. -/
  | wholes (values : Array Int)
  /-- Something that holds no pixels. -/
  | other (typeName : String)

namespace Buffer

/-- The values as bytes. -/
def toBytes : Buffer → Except RasterFault ByteArray
  | .bytes values => .ok values
  | .reals values => .ok (values.foldl (fun out v => out.push (truncatedByte v)) ByteArray.empty)
  | .wholes values => .ok (values.foldl (fun out v => out.push (byteOfInt v)) ByteArray.empty)
  | .other typeName => .error (.unsupportedBuffer typeName)

/-- The picture of the given size that a buffer holds. -/
def toPicture (buffer : Buffer) (width height : Extent) : Except RasterFault Picture := do
  let bytes ← buffer.toBytes
  if (bytes.size : Int) ≠ width.count * height.count * 4 then
    throw (.wrongSize bytes.size width height)
  if width.count < 0 || height.count < 0 then throw .negativeSize
  match Picture.ofBytes? width.count.toNat height.count.toNat bytes with
  | some p => return p
  | none => throw (.wrongSize bytes.size width height)

end Buffer

/-- What a back-end does when it is asked for pixels. -/
inductive Conduct where
  | delivers (buffer : Buffer)
  /-- It refuses the markup. -/
  | refuses (reason : String)
  /-- It breaks down for a reason of its own. -/
  | breaks (reason : String)

/-- The picture of the given size that comes of it; whatever goes wrong is a fault of the rendering. -/
def Conduct.reply (conduct : Conduct) (width height : Extent) : Except RasterFault Picture :=
  match conduct with
  | .delivers buffer => buffer.toPicture width height
  | .refuses reason => .error (.refused reason)
  | .breaks reason => .error (.crashed reason)

end VectorGraph
