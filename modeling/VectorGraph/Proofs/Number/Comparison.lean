import Mathlib
import VectorGraph.Proofs.Number.Doubles
import VectorGraph.Proofs.Number.Nearest

/-!
Comparing doubles.

Doubles are compared by sign, exponent and mantissa, one after the other. As all mantissas but those of the least
exponent have the same number of bits, this is the order of the exact values (`lt_iff_value_lt`,
`le_iff_value_le`). What is no number is neither below nor above anything, so that a double between two finite ones
is finite itself (`exists_finite_of_between`).
-/
namespace VectorGraph

open Float.Model

/-- Whether a sign is that of the numbers below zero. -/
def isMinus : UnpackedFloat.Sign → Bool
  | .negative => true
  | .positive => false

/-- The exact value of a finite double. -/
def Binary.value (b : Binary) : ℚ := if b.negative then -b.magnitude else b.magnitude

namespace Binary

variable {b : Binary}

theorem magnitude_nonneg (b : Binary) : 0 ≤ b.magnitude :=
  mul_nonneg (Nat.cast_nonneg _) (zpow_nonneg zero_le_two _)

theorem value_of_negative (h : b.negative = true) : b.value = -b.magnitude := if_pos h

theorem value_of_positive (h : b.negative = false) : b.value = b.magnitude := if_neg (by simp [h])

theorem abs_value (b : Binary) : |b.value| = b.magnitude := by
  cases sign : b.negative with
  | false => rw [value_of_positive sign, abs_of_nonneg b.magnitude_nonneg]
  | true => rw [value_of_negative sign, abs_neg, abs_of_nonneg b.magnitude_nonneg]

end Binary

namespace FloatView

/-! ## The parts of a double -/

/-- The view of a double that is taken apart. -/
def ofParts : UnpackedFloat → FloatView
  | .infinity s => .infinite (isMinus s)
  | .notANumber => .notANumber
  | .zero s => .finite ⟨isMinus s, 0, -1074⟩
  | .finite s m e _ => .finite ⟨isMinus s, m, e⟩

theorem isMinus_ofBitVec (v : BitVec 1) : isMinus (.ofBitVec v) = (v.toNat == 1) := by
  have two : v.toNat = 0 ∨ v.toNat = 1 := by
    have := v.isLt
    omega
  rcases two with zero | one
  · obtain rfl : v = 0#1 := BitVec.eq_of_toNat_eq zero
    rfl
  · obtain rfl : v = 1#1 := BitVec.eq_of_toNat_eq one
    rfl

section Parts

variable (v : BitVec 64)

theorem toNat_exponent : (@UnpackedFloat.unpackExponent Format.binary64 v).toNat = v.toNat / 2 ^ 52 % 2 ^ 11 := by
  simp [UnpackedFloat.unpackExponent, Nat.shiftRight_eq_div_pow]

theorem toNat_mantissa : (@UnpackedFloat.unpackMantissa Format.binary64 v).toNat = v.toNat % 2 ^ 52 := by
  simp [UnpackedFloat.unpackMantissa]

theorem toNat_sign : (@UnpackedFloat.unpackSign Format.binary64 v).toNat = v.toNat / 2 ^ 63 % 2 := by
  simp [UnpackedFloat.unpackSign, Nat.shiftRight_eq_div_pow]

/-- Before the mantissa of a double with a full one stands a one. -/
theorem toNat_leading :
    (1#1 ++ @UnpackedFloat.unpackMantissa Format.binary64 v).toNat = 2 ^ 52 + v.toNat % 2 ^ 52 := by
  have small : v.toNat % 2 ^ 52 < 2 ^ 52 := Nat.mod_lt _ (Nat.two_pow_pos 52)
  rw [BitVec.toNat_append, toNat_mantissa, ← Nat.shiftLeft_add_eq_or_of_lt small]
  rfl

theorem exponent_eq_iff (w : BitVec 11) :
    @UnpackedFloat.unpackExponent Format.binary64 v = w ↔ v.toNat / 2 ^ 52 % 2 ^ 11 = w.toNat := by
  rw [← toNat_exponent, ← BitVec.toNat_inj]

/-- The bits of a double are read as they are taken apart. -/
theorem ofBits_eq_ofParts : ofBits v.toNat = ofParts (UnpackedFloat.unpack Format.binary64 v) := by
  have nothing : @UnpackedFloat.unpackMantissa Format.binary64 v = 0#52 ↔ v.toNat % 2 ^ 52 = 0 := by
    rw [← toNat_mantissa, ← BitVec.toNat_inj]
    rfl
  simp only [ofBits, UnpackedFloat.unpack, Nat.pow_eq, exponent_eq_iff v (-1#11), exponent_eq_iff v 0#11, nothing]
  change (if _ = 2047 then _ else if _ = 0 then _ else _) = ofParts (if _ = 2047 then _ else if _ = 0 then _ else _)
  split
  · split
    · rw [ofParts, isMinus_ofBitVec, toNat_sign]
    · rfl
  · split
    · next least =>
      split
      · next none => rw [ofParts, isMinus_ofBitVec, toNat_sign, none]
      · rw [ofParts, isMinus_ofBitVec, toNat_sign, toNat_mantissa, toNat_exponent, least]
        rfl
    · rw [ofParts, isMinus_ofBitVec, toNat_sign, toNat_exponent, toNat_leading]
      rfl

end Parts

theorem of_eq_ofParts (x : Float) : of x = ofParts x.toModel.unpack := ofBits_eq_ofParts x.toBits.toBitVec

end FloatView

/-! ## The order -/

theorem compare_neg_neg (a b : ℚ) : compare (-a) (-b) = (compare a b).swap := by
  rcases lt_trichotomy a b with less | rfl | greater
  · rw [compare_lt_iff_lt.mpr less, compare_gt_iff_gt.mpr (neg_lt_neg less)]
    rfl
  · rw [compare_eq_iff_eq.mpr rfl, compare_eq_iff_eq.mpr rfl]
    rfl
  · rw [compare_gt_iff_gt.mpr greater, compare_lt_iff_lt.mpr (neg_lt_neg greater)]
    rfl

section Order

variable {m m' : Nat} {e e' : Int}

/-- Of two doubles the one with the greater exponent is greater, as its mantissa is full. -/
theorem magnitude_lt_of_exponent_lt (proper : IsDouble m e) (proper' : IsDouble m' e') (h : e < e') :
    (m : ℚ) * 2 ^ e < m' * 2 ^ e' := by
  have full : 2 ^ 52 ≤ m' := proper'.full.resolve_right (by have := proper.least; omega)
  have step : (2 : ℚ) * 2 ^ e ≤ 2 ^ e' := by
    rw [mul_comm, ← zpow_add_one₀ two_ne_zero]
    exact zpow_le_zpow_right₀ one_le_two h
  calc (m : ℚ) * 2 ^ e < 2 ^ 53 * 2 ^ e := by
        gcongr
        exact_mod_cast proper.small
    _ = 2 ^ 52 * (2 * 2 ^ e) := by ring
    _ ≤ 2 ^ 52 * 2 ^ e' := by gcongr
    _ ≤ m' * 2 ^ e' := by
        gcongr
        exact_mod_cast full

/-- Exponents first and mantissas then are compared as the values are. -/
theorem compare_parts (proper : IsDouble m e) (proper' : IsDouble m' e') :
    (compare e e').then (compare m m') = compare ((m : ℚ) * 2 ^ e) (m' * 2 ^ e') := by
  rcases lt_trichotomy e e' with less | rfl | greater
  · rw [compare_lt_iff_lt.mpr less, compare_lt_iff_lt.mpr (magnitude_lt_of_exponent_lt proper proper' less)]
    rfl
  · have positive : (0 : ℚ) < 2 ^ e := zpow_pos two_pos e
    rw [compare_eq_iff_eq.mpr rfl]
    rcases lt_trichotomy m m' with less | rfl | greater
    · rw [compare_lt_iff_lt.mpr less,
        compare_lt_iff_lt.mpr (mul_lt_mul_of_pos_right (by exact_mod_cast less) positive)]
      rfl
    · rw [compare_eq_iff_eq.mpr rfl, compare_eq_iff_eq.mpr rfl]
      rfl
    · rw [compare_gt_iff_gt.mpr greater,
        compare_gt_iff_gt.mpr (mul_lt_mul_of_pos_right (by exact_mod_cast greater) positive)]
      rfl
  · rw [compare_gt_iff_gt.mpr greater, compare_gt_iff_gt.mpr (magnitude_lt_of_exponent_lt proper' proper greater)]
    rfl

end Order

namespace FloatView

/-- A finite double is zero, or it has a mantissa and a sign. -/
theorem parts_of_finite {p : UnpackedFloat} {b : Binary} (h : ofParts p = .finite b) :
    (∃ s, p = .zero s ∧ b.value = 0) ∨
    (∃ pos, p = .finite .positive b.mantissa b.exponent pos ∧ b.value = b.magnitude ∧ 0 < b.magnitude) ∨
    (∃ pos, p = .finite .negative b.mantissa b.exponent pos ∧ b.value = -b.magnitude ∧ 0 < b.magnitude) := by
  cases p with
  | notANumber | infinity s => cases h
  | zero s =>
    obtain rfl := FloatView.finite.inj h
    exact .inl ⟨s, rfl, by simp [Binary.value, Binary.magnitude]⟩
  | finite s m e pos =>
    obtain rfl := FloatView.finite.inj h
    have positive : (0 : ℚ) < m * 2 ^ e := mul_pos (by exact_mod_cast pos) (zpow_pos two_pos e)
    cases s with
    | positive => exact .inr (.inl ⟨pos, rfl, rfl, positive⟩)
    | negative => exact .inr (.inr ⟨pos, rfl, rfl, positive⟩)

/-- Doubles are compared as their exact values are. -/
theorem compare_value {x y : Float} {b b' : Binary} (hx : of x = .finite b) (hy : of y = .finite b') :
    x.toModel.unpack.compare y.toModel.unpack = some (compare b.value b'.value) := by
  have sizes := compare_parts (isDouble_of hx) (isDouble_of hy)
  rw [of_eq_ofParts] at hx hy
  rcases parts_of_finite hx with ⟨s, px, vx⟩ | ⟨_, px, vx, positive⟩ | ⟨_, px, vx, positive⟩ <;>
    rcases parts_of_finite hy with ⟨s', py, vy⟩ | ⟨_, py, vy, positive'⟩ | ⟨_, py, vy, positive'⟩ <;>
    rw [px, py, vx, vy]
  · rw [compare_eq_iff_eq.mpr rfl]
    rfl
  · rw [compare_lt_iff_lt.mpr positive']
    rfl
  · rw [compare_gt_iff_gt.mpr (neg_lt_zero.mpr positive')]
    rfl
  · rw [compare_gt_iff_gt.mpr positive]
    rfl
  · exact congrArg some sizes
  · rw [compare_gt_iff_gt.mpr ((neg_lt_zero.mpr positive').trans positive)]
    rfl
  · rw [compare_lt_iff_lt.mpr (neg_lt_zero.mpr positive)]
    rfl
  · rw [compare_lt_iff_lt.mpr ((neg_lt_zero.mpr positive).trans positive')]
    rfl
  · rw [compare_neg_neg]
    exact congrArg (some ·.swap) sizes

theorem lt_iff_value_lt {x y : Float} {b b' : Binary} (hx : of x = .finite b) (hy : of y = .finite b') :
    x < y ↔ b.value < b'.value := by
  have parts : x < y ↔ x.toModel.unpack.lt y.toModel.unpack = true := decide_eq_true_iff
  rw [parts, UnpackedFloat.lt, compare_value hx hy, ← compare_lt_iff_lt]
  simp

theorem le_iff_value_le {x y : Float} {b b' : Binary} (hx : of x = .finite b) (hy : of y = .finite b') :
    x ≤ y ↔ b.value ≤ b'.value := by
  have parts : x ≤ y ↔ x.toModel.unpack.le y.toModel.unpack = true := decide_eq_true_iff
  rw [parts, UnpackedFloat.le, compare_value hx hy, Option.any_some, ← compare_le_iff_le]
  exact Ordering.ne_gt_iff_isLE.symm

theorem le_of_lt {x y : Float} (h : x < y) : x ≤ y := by
  have parts : x.toModel.unpack.lt y.toModel.unpack = true := of_decide_eq_true h
  rw [UnpackedFloat.lt, beq_iff_eq] at parts
  have weak : x.toModel.unpack.le y.toModel.unpack = true := by
    rw [UnpackedFloat.le, parts]
    rfl
  exact decide_eq_true weak

/-- What lies between two finite doubles is finite. -/
theorem exists_finite_of_between {low x high : Float} {b b' : Binary} (hl : of low = .finite b)
    (hh : of high = .finite b') (above : low ≤ x) (below : x ≤ high) : ∃ b, of x = .finite b := by
  have above_ : low.toModel.unpack.le x.toModel.unpack = true := of_decide_eq_true above
  have below_ : x.toModel.unpack.le high.toModel.unpack = true := of_decide_eq_true below
  rw [of_eq_ofParts] at hl hh ⊢
  cases px : x.toModel.unpack with
  | zero s => exact ⟨_, rfl⟩
  | finite s m e pos => exact ⟨_, rfl⟩
  | notANumber =>
    rw [px] at below_
    cases below_
  | infinity s =>
    rw [px] at above_ below_
    cases s with
    | negative =>
      rcases parts_of_finite hl with ⟨s, p, -⟩ | ⟨pos, p, -⟩ | ⟨pos, p, -⟩ <;> rw [p] at above_ <;> cases above_
    | positive =>
      rcases parts_of_finite hh with ⟨s, p, -⟩ | ⟨pos, p, -⟩ | ⟨pos, p, -⟩ <;> rw [p] at below_ <;> cases below_

end FloatView

end VectorGraph
