import VectorGraph.Proofs.Number.Packing
import VectorGraph.Wave.Mulberry

/-!
Draws as fractions.

A draw is turned into a double and divided by `2 ^ 32`. Neither step rounds: a number of at most 53 bits is brought to
53 bits by zeros, and a power of two as the divisor changes the exponent only (`div_power`). So the double is the
fraction itself (`fraction_value`).
-/
namespace VectorGraph

open Float.Model UnpackedFloat

/-! ## What needs no rounding -/

theorem shiftRight_zeros (k : Nat) : ∀ m : Nat,
    (⟨m * 2 ^ k, false, false⟩ : ExtendedMantissa) >>> k = ⟨m, false, false⟩ := by
  induction k with
  | zero => exact fun m => congrArg (ExtendedMantissa.mk · false false) (Nat.mul_one m)
  | succ k ih =>
    intro m
    have next : (⟨m * 2 ^ (k + 1), false, false⟩ : ExtendedMantissa) >>> k = ⟨2 * m, false, false⟩ := by
      rw [← ih (2 * m), Nat.pow_succ']
      congr 2
      ring
    have step : (⟨2 * m, false, false⟩ : ExtendedMantissa).shiftRightOne = ⟨m, false, false⟩ := by
      simp [ExtendedMantissa.shiftRightOne]
    exact (congrArg ExtendedMantissa.shiftRightOne next).trans step

theorem log2_mul_pow {m : Nat} (pos : 0 < m) (k : Nat) : (m * 2 ^ k).log2 = m.log2 + k := by
  rw [Nat.log2_eq_iff (Nat.mul_pos pos (Nat.two_pow_pos k)).ne', Nat.pow_add, Nat.add_right_comm, Nat.pow_add]
  exact ⟨Nat.mul_le_mul_right _ (Nat.log2_self_le pos.ne'),
    Nat.mul_lt_mul_of_pos_right Nat.lt_log2_self (Nat.two_pow_pos k)⟩

section Exact

variable {m : Nat} {e : Int}

theorem shiftToTarget_zeros (full : m.log2 = 52) (pos : 0 < m) (least : -1074 ≤ e) (k : Nat) :
    shiftToTargetExponent Format.binary64 (m * 2 ^ k) (e - k) .exact = (⟨m, false, false⟩, e) := by
  have target : Format.binary64.targetExponent (totalExponent (m * 2 ^ k) (e - k)) = e := by
    have length : Format.binary64.mantissaBits = 53 := by decide
    have lowest : Format.binary64.minExponent = -1074 := by decide
    rw [Format.targetExponent, totalExponent, length, lowest, log2_mul_pow pos, full]
    omega
  have amount : (e - (e - k)).toNat = k := by omega
  rw [shiftToTargetExponent, target, shiftToExponent, amount]
  exact Prod.ext (shiftRight_zeros k m) (by simp)

/-- A mantissa of 53 bits with zeros behind it is not rounded. -/
theorem round_zeros (s : Sign) (pos : 0 < m) (full : m.log2 = 52) (least : -1074 ≤ e) (k : Nat) :
    roundWithAccuracy Format.binary64 s (m * 2 ^ k) (e - k) .exact = .finite s m e pos := by
  have again := shiftToTarget_zeros full pos least 0
  rw [Nat.pow_zero, Nat.mul_one, Nat.cast_zero, sub_zero] at again
  rw [roundWithAccuracy, shiftToTarget_zeros full pos least k]
  dsimp only
  have rounded : ExtendedMantissa.roundedMantissa ⟨m, false, false⟩ = m := rfl
  rw [rounded, again]
  exact dif_neg pos.ne'

/-! ## Operations -/

theorem isDouble_of_log (full : m.log2 = 52) (pos : 0 < m) (least : -1074 ≤ e) (most : e ≤ 971) : IsDouble m e where
  small := (Nat.log2_lt pos.ne').mp (by omega)
  full := .inl ((Nat.le_log2 pos.ne').mp full.ge)
  least := least
  most := most

theorem unpack_finite (s : Sign) (pos : 0 < m) (full : m.log2 = 52) (least : -1074 ≤ e) (most : e ≤ 971) :
    (Float.Model.pack (.finite s m e pos)).unpack = .finite s m e pos :=
  FloatView.unpack_pack rfl (isDouble_of_log full pos least most)

/-- A number of at most 53 bits is brought to 53 bits by zeros. -/
theorem unpack_ofUInt64 {n : Nat} (pos : 0 < n) (small : n < 2 ^ 53) :
    n.toUInt64.toFloat.toModel.unpack = .finite .positive (n * 2 ^ (52 - n.log2)) ((n.log2 : Int) - 52)
      (Nat.mul_pos pos (Nat.two_pow_pos _)) := by
  have log : n.log2 < 53 := (Nat.log2_lt pos.ne').mpr small
  have full : (n * 2 ^ (52 - n.log2)).log2 = 52 := by rw [log2_mul_pow pos]; omega
  have target : Format.binary64.targetExponent (totalExponent n 0) = (n.log2 : Int) - 52 := by
    have length : Format.binary64.mantissaBits = 53 := by decide
    have lowest : Format.binary64.minExponent = -1074 := by decide
    rw [Format.targetExponent, totalExponent, length, lowest]
    omega
  have amount : (0 - ((n.log2 : Int) - 52)).toNat = 52 - n.log2 := by omega
  have exponent : (0 : Int) - (52 - n.log2 : Nat) = (n.log2 : Int) - 52 := by omega
  have whole : n.toUInt64.toNat = n := UInt64.toNat_ofNat_of_lt' (by simp only [UInt64.size]; omega)
  have rounded : UnpackedFloat.ofUInt64 Format.binary64 n.toUInt64 =
      .finite .positive (n * 2 ^ (52 - n.log2)) ((n.log2 : Int) - 52) (Nat.mul_pos pos (Nat.two_pow_pos _)) := by
    have unrounded := round_zeros .positive (Nat.mul_pos pos (Nat.two_pow_pos _)) full
      (e := (n.log2 : Int) - 52) (by omega) 0
    rw [Nat.pow_zero, Nat.mul_one, Nat.cast_zero, sub_zero] at unrounded
    rw [UnpackedFloat.ofUInt64, whole, UnpackedFloat.ofNat, UnpackedFloat.ofInt, UnpackedFloat.normalize,
      Int.compare_eq_gt.mpr (by omega)]
    dsimp only
    rw [Int.toNat_natCast, UnpackedFloat.round, target, decreaseExponent, amount]
    dsimp only
    rw [exponent, Nat.shiftLeft_eq, unrounded]
  have model : n.toUInt64.toFloat.toModel = .pack (UnpackedFloat.ofUInt64 Format.binary64 n.toUInt64) := rfl
  rw [model, rounded]
  exact unpack_finite _ _ full (by omega) (by omega)

variable {x y : Float} {s : Sign} {pos : 0 < m} {f : Int}

/-- Multiplying by one changes nothing. -/
theorem unpack_mul_one (parts : x.toModel.unpack = .finite s m e pos) (full : m.log2 = 52) (least : -1074 ≤ e)
    (most : e ≤ 971) : (x * Float.ofBits 0x3FF0000000000000).toModel.unpack = .finite s m e pos := by
  have one : (Float.ofBits 0x3FF0000000000000).toModel.unpack = .finite .positive (2 ^ 52) (-52) (by decide) := rfl
  have model : (x * Float.ofBits 0x3FF0000000000000).toModel = .pack (UnpackedFloat.mul Format.binary64
    x.toModel.unpack (Float.ofBits 0x3FF0000000000000).toModel.unpack) := rfl
  have sign : s * .positive = s := by cases s <;> rfl
  have exponent : e + -52 = e - (52 : Nat) := by omega
  rw [model, parts, one, UnpackedFloat.mul, sign, exponent, round_zeros s pos full least 52]
  exact unpack_finite s pos full least most

theorem unpack_ofNat {n : Nat} (pos : 0 < n) (small : n < 2 ^ 53) :
    (Float.ofNat n).toModel.unpack = .finite .positive (n * 2 ^ (52 - n.log2)) ((n.log2 : Int) - 52)
      (Nat.mul_pos pos (Nat.two_pow_pos _)) := by
  have log : n.log2 < 53 := (Nat.log2_lt pos.ne').mpr small
  have plain : Float.ofNat n = n.toUInt64.toFloat * Float.ofBits 0x3FF0000000000000 :=
    dif_pos (⟨small, by decide⟩ : n < 2 ^ 53 ∧ 0 ≤ 22)
  rw [plain]
  exact unpack_mul_one (unpack_ofUInt64 pos small) (by rw [log2_mul_pow pos]; omega) (by omega) (by omega)

/-- Dividing by a power of two changes the exponent only. -/
theorem unpack_div_power (parts : x.toModel.unpack = .finite s m e pos) (full : m.log2 = 52)
    (parts' : y.toModel.unpack = .finite .positive (2 ^ 52) f (by decide)) (least : -1073 ≤ e - f - 52)
    (most : e - f - 52 ≤ 971) : (x / y).toModel.unpack = .finite s m (e - f - 52) pos := by
  have target : min (e - f) (Format.binary64.targetExponent (totalExponent m e - totalExponent (2 ^ 52) f)) =
      e - f - 52 - (1 : Nat) := by
    have length : Format.binary64.mantissaBits = 53 := by decide
    have lowest : Format.binary64.minExponent = -1074 := by decide
    rw [Format.targetExponent, totalExponent, totalExponent, length, lowest, full, Nat.log2_two_pow]
    omega
  have amount : (e - f - (e - f - 52 - (1 : Nat))).toNat = 53 := by omega
  have shifted : m <<< 53 = m * 2 ^ 1 * 2 ^ 52 := by rw [Nat.shiftLeft_eq, Nat.mul_assoc, ← Nat.pow_add]
  have core : divCore Format.binary64 m e (2 ^ 52) f = (m * 2 ^ 1, e - f - 52 - (1 : Nat), .exact) := by
    rw [divCore, target, amount, shifted, Nat.mul_div_cancel _ (Nat.two_pow_pos 52), Nat.mul_mod_left]
    rfl
  have model : (x / y).toModel =
    .pack (UnpackedFloat.div Format.binary64 x.toModel.unpack y.toModel.unpack) := rfl
  have sign : s / .positive = s := by cases s <;> rfl
  rw [model, parts, parts', UnpackedFloat.div, core, sign]
  dsimp only
  rw [round_zeros s pos full (by omega) 1]
  exact unpack_finite s pos full (by omega) most

end Exact

/-! ## Draws -/

namespace Mulberry

/-- The double that a draw is turned into is the fraction itself. -/
theorem fraction_value {draw : Nat} (small : draw < 2 ^ 32) :
    ∃ b, FloatView.of (fraction draw) = .finite b ∧ b.value = draw / 2 ^ 32 := by
  rcases Nat.eq_zero_or_pos draw with rfl | pos
  · exact ⟨⟨false, 0, -1074⟩, by decide +kernel, by simp [Binary.value, Binary.magnitude]⟩
  · have log : draw.log2 < 32 := (Nat.log2_lt pos.ne').mpr small
    have view : FloatView.of 4294967296 = .finite ⟨false, 2 ^ 52, -20⟩ := by decide +kernel
    have divisor : (4294967296 : Float).toModel.unpack = .finite .positive (2 ^ 52) (-20) (by decide) :=
      FloatView.ofParts_injective ((FloatView.of_eq_ofParts _).symm.trans view)
    have parts := unpack_div_power (unpack_ofNat pos (by omega)) (by rw [log2_mul_pow pos]; omega) divisor
      (by omega) (by omega)
    refine ⟨_, (FloatView.of_eq_ofParts _).trans (congrArg FloatView.ofParts parts), ?_⟩
    have exponent : (2 : ℚ) ^ (52 - draw.log2) * 2 ^ ((draw.log2 : Int) - 52 - -20 - 52) = (2 ^ 32)⁻¹ := by
      rw [← zpow_natCast, ← zpow_natCast, ← zpow_add₀ two_ne_zero, ← zpow_neg]
      congr 1
      omega
    have above : ¬isMinus .positive = true := Bool.false_ne_true
    rw [Binary.value, if_neg above, Binary.magnitude]
    push_cast
    rw [mul_assoc, exponent, div_eq_mul_inv]

end Mulberry

end VectorGraph
