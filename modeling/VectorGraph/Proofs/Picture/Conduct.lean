import Mathlib.Logic.Basic
import VectorGraph.Picture.Buffer

/-!
What comes of the conduct of a back-end.

A buffer counts by the number of its values alone, whatever type they have: if it is the number of bytes of a picture
of the size asked for, the buffer is that picture, and otherwise the rendering has failed (`Conduct.reply_eq_iff`). The
sides asked for are not negative.
-/
namespace VectorGraph

variable {buffer : Buffer} {bytes : ByteArray} {width height : Extent}

/-- What a back-end's conduct comes to when it is asked for a picture of the given size. -/
inductive Conduct.ComesTo (width height : Extent) : Conduct → Except RasterFault Picture → Prop where
  | picture {buffer : Buffer} {bytes : ByteArray} {p : Picture} (held : buffer.toBytes = .ok bytes)
      (read : Picture.ofBytes? width.count.toNat height.count.toNat bytes = some p) :
      ComesTo width height (.delivers buffer) (.ok p)
  | wrongSize {buffer : Buffer} {bytes : ByteArray} (held : buffer.toBytes = .ok bytes)
      (size : (bytes.size : Int) ≠ width.count * height.count * 4) :
      ComesTo width height (.delivers buffer) (.error (.wrongSize bytes.size width height))
  | unsupported (typeName : String) :
      ComesTo width height (.delivers (.other typeName)) (.error (.unsupportedBuffer typeName))
  | refused (reason : String) : ComesTo width height (.refuses reason) (.error (.refused reason))
  | crashed (reason : String) : ComesTo width height (.breaks reason) (.error (.crashed reason))

/-- Bytes are read as a picture if their number is right. -/
theorem Picture.exists_ofBytes? {w h : Nat} (size : bytes.size = 4 * (w * h)) :
    ∃ p, Picture.ofBytes? w h bytes = some p := ⟨_, if_pos size⟩

theorem Picture.size_of_ofBytes? {w h : Nat} {p : Picture} (read : Picture.ofBytes? w h bytes = some p) :
    bytes.size = 4 * (w * h) := by
  unfold ofBytes? at read
  split at read
  · assumption
  · cases read

namespace Buffer

theorem toPicture_of_wrongSize (held : buffer.toBytes = .ok bytes)
    (size : (bytes.size : Int) ≠ width.count * height.count * 4) :
    buffer.toPicture width height = .error (.wrongSize bytes.size width height) := by
  unfold toPicture
  rw [held]
  change (if _ then _ else _) = _
  rw [if_pos size]
  rfl

section

variable (wide : 0 ≤ width.count) (high : 0 ≤ height.count)

include wide high

/-- The number of bytes of a picture, as an integer and as a natural number. -/
theorem size_eq_iff : (bytes.size : Int) = width.count * height.count * 4 ↔
    bytes.size = 4 * (width.count.toNat * height.count.toNat) := by
  obtain ⟨w, hw⟩ := Int.eq_ofNat_of_zero_le wide
  obtain ⟨h, hh⟩ := Int.eq_ofNat_of_zero_le high
  rw [hw, hh, Int.toNat_natCast, Int.toNat_natCast]
  omega

theorem toPicture_of_size {p : Picture} (held : buffer.toBytes = .ok bytes)
    (read : Picture.ofBytes? width.count.toNat height.count.toNat bytes = some p) :
    buffer.toPicture width height = .ok p := by
  have size := (size_eq_iff wide high).mpr (Picture.size_of_ofBytes? read)
  have sides : (decide (width.count < 0) || decide (height.count < 0)) = false := by
    simp only [Bool.or_eq_false_iff, decide_eq_false_iff_not]
    omega
  unfold toPicture
  rw [held]
  change (if _ then _ else _) = _
  rw [if_neg (not_not.mpr size)]
  simp only [sides, read]
  rfl

theorem toPicture_comes (buffer : Buffer) :
    Conduct.ComesTo width height (.delivers buffer) (buffer.toPicture width height) := by
  cases held : buffer.toBytes with
  | error fault =>
    cases buffer with
    | other typeName => exact .unsupported typeName
    | bytes | reals | wholes => cases held
  | ok bytes =>
    by_cases size : (bytes.size : Int) = width.count * height.count * 4
    · obtain ⟨p, read⟩ := Picture.exists_ofBytes? ((size_eq_iff wide high).mp size)
      rw [toPicture_of_size wide high held read]
      exact .picture held read
    · rw [toPicture_of_wrongSize held size]
      exact .wrongSize held size

end

end Buffer

/-- A reply is what the conduct of the back-end comes to. -/
theorem Conduct.reply_eq_iff (wide : 0 ≤ width.count) (high : 0 ≤ height.count) {conduct : Conduct}
    {reply : Except RasterFault Picture} : conduct.reply width height = reply ↔ conduct.ComesTo width height reply := by
  constructor
  · rintro rfl
    cases conduct with
    | delivers buffer => exact buffer.toPicture_comes wide high
    | refuses reason => exact .refused reason
    | breaks reason => exact .crashed reason
  · intro comes
    cases comes with
    | picture held read => exact Buffer.toPicture_of_size wide high held read
    | wrongSize held size => exact Buffer.toPicture_of_wrongSize held size
    | unsupported | refused | crashed => rfl

end VectorGraph
