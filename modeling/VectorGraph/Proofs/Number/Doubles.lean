import Mathlib.Algebra.Order.Ring.Nat
import VectorGraph.Number.Binary

/-!
What the view of a double tells.

The sign, the mantissa and the exponent determine the bits of a double, infinities have two bit patterns and what
is no number has one. So no two doubles have one view (`FloatView.of_injective`), and zero and negative zero have
two.
-/
namespace VectorGraph

/-- The mantissa has at most 53 bits, and all of them unless the exponent is the least. -/
structure IsDouble (m : Nat) (e : Int) : Prop where
  small : m < 2 ^ 53
  full : 2 ^ 52 ≤ m ∨ e = -1074
  least : -1074 ≤ e
  most : e ≤ 971

namespace FloatView

theorem isDouble_ofBits {n : Nat} {b : Binary} (h : ofBits n = .finite b) : IsDouble b.mantissa b.exponent := by
  unfold ofBits at h
  extract_lets negative field fraction at h
  have below : fraction < 2 ^ 52 := Nat.mod_lt _ (Nat.two_pow_pos 52)
  have top : field < 2 ^ 11 := Nat.mod_lt _ (Nat.two_pow_pos 11)
  split at h
  · split at h <;> cases h
  · split at h
    · obtain rfl := FloatView.finite.inj h
      exact ⟨Nat.lt_trans below (by decide), .inr rfl, Int.le_refl _, by simp only; omega⟩
    · obtain rfl := FloatView.finite.inj h
      simp only [Nat.pow_eq]
      exact ⟨by omega, .inl (by omega), by omega, by omega⟩

theorem isDouble_of {x : Float} {b : Binary} (h : of x = .finite b) : IsDouble b.mantissa b.exponent :=
  isDouble_ofBits h

/-- The bits of a double with this view; there is one that stands for no number. -/
def bits : FloatView → Nat
  | .finite b => b.negative.toNat * 2 ^ 63 +
      if b.mantissa < 2 ^ 52 then b.mantissa else (b.exponent + 1075).toNat * 2 ^ 52 + (b.mantissa - 2 ^ 52)
  | .infinite negative => negative.toNat * 2 ^ 63 + 2047 * 2 ^ 52
  | .notANumber => 0x7FF8000000000000

open Float.Model in
theorem toNat_toBits_of_notANumber {x : Float} (h : of x = .notANumber) : x.toBits.toNat = bits .notANumber := by
  have canonical := x.toModel.valid.eq_packedNaN
  have same : x.toBits = x.toModel.toBits := rfl
  unfold of ofBits at h
  extract_lets negative field fraction at h
  split at h
  · split at h
    · cases h
    · next top given =>
      have exponent : @UnpackedFloat.unpackExponent Format.binary64 x.toModel.toBits.toBitVec = -1#_ := by
        apply BitVec.eq_of_toNat_eq
        simpa [UnpackedFloat.unpackExponent, Nat.shiftRight_eq_div_pow, field, same] using top
      have mantissa : @UnpackedFloat.unpackMantissa Format.binary64 x.toModel.toBits.toBitVec ≠ 0#_ := by
        intro zero
        have := congrArg BitVec.toNat zero
        simp [UnpackedFloat.unpackMantissa] at this
        exact given (by simpa [fraction, same] using this)
      exact congrArg BitVec.toNat (canonical exponent mantissa)
  · split at h <;> cases h

theorem bits_ofBits {n : Nat} (size : n < 2 ^ 64) : ofBits n ≠ .notANumber → bits (ofBits n) = n := by
  unfold ofBits
  extract_lets negative field fraction
  have sign : negative.toNat = n / 2 ^ 63 := by
    have two : n / 2 ^ 63 = 0 ∨ n / 2 ^ 63 = 1 := by omega
    simp only [negative, Nat.pow_eq]
    rcases two with h | h <;> rw [h] <;> rfl
  -- The bits are the sign, the exponent field and the fraction, and each kind of double gives its own back.
  have parts : n = negative.toNat * 2 ^ 63 + field * 2 ^ 52 + fraction := by
    simp only [sign, field, fraction, Nat.pow_eq]
    omega
  have below : fraction < 2 ^ 52 := Nat.mod_lt _ (Nat.two_pow_pos 52)
  split
  · next top =>
    split
    · next zero =>
      rw [top, zero, Nat.add_zero] at parts
      exact fun _ => parts.symm
    · exact fun h => absurd rfl h
  · split
    · next least =>
      intro _
      show negative.toNat * 2 ^ 63 + (if fraction < 2 ^ 52 then fraction else _) = n
      rw [if_pos below]
      rw [least] at parts
      omega
    · intro _
      show negative.toNat * 2 ^ 63 + (if 2 ^ 52 + fraction < 2 ^ 52 then _ else
        ((field : Int) - 1075 + 1075).toNat * 2 ^ 52 + (2 ^ 52 + fraction - 2 ^ 52)) = n
      rw [if_neg (by omega)]
      omega

/-- No two doubles have one view. -/
theorem of_injective : Function.Injective of := by
  intro x y h
  have bitwise : x.toBits.toNat = y.toBits.toNat := by
    by_cases nan : of x = .notANumber
    · rw [toNat_toBits_of_notANumber nan, toNat_toBits_of_notANumber (h ▸ nan)]
    · have nan' : of y ≠ .notANumber := h ▸ nan
      rw [← bits_ofBits x.toBits.toNat_lt nan, ← bits_ofBits y.toBits.toNat_lt nan']
      exact congrArg bits h
  obtain ⟨⟨a, _⟩⟩ := x
  obtain ⟨⟨b, _⟩⟩ := y
  obtain rfl : a = b := UInt64.toNat_inj.mp bitwise
  rfl

end FloatView

end VectorGraph
