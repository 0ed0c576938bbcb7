import VectorGraph.Number.Rounding
import VectorGraph.Proofs.Number.Comparison

/-!
Rounding in exact arithmetic.

A value rounds to the nearest whole number, and to the even one of two that are as near (`RoundsTo`). Every value
rounds to one number only, and rounding keeps the order (`RoundsTo.mono`). In an ordered field with a floor
`nearestEven` finds the number. The rounding of fractions of two natural numbers, and with it that of doubles, is this
one: a double is rounded as its exact value is (`nearestEven_scaled`), and so is the byte made of it
(`nearestByte_of_finite`).
-/

/-- Exact arithmetic. The name is needed where the fields of parameters are called `Field`. -/
abbrev ExactField (K : Type) : Type := Field K

namespace VectorGraph

section Exact

variable {K : Type} [ExactField K] [LinearOrder K] [IsStrictOrderedRing K] {x y : K} {m n : ℤ}

/-- No whole number is nearer to the value, and if another one is as near, this one is even. -/
structure RoundsTo (x : K) (n : ℤ) : Prop where
  near : |x - n| ≤ 1 / 2
  even : |x - n| = 1 / 2 → Even n

/-- Rounding keeps the order. -/
theorem RoundsTo.mono (hx : RoundsTo x m) (hy : RoundsTo y n) (h : x ≤ y) : m ≤ n := by
  by_contra less
  have step : (n : K) + 1 ≤ m := by exact_mod_cast (by omega : n + 1 ≤ m)
  have lower := (abs_le.mp hx.near).1
  have upper := (abs_le.mp hy.near).2
  -- both are a half away from what they round to, and the two numbers are neighbours
  have next : m = n + 1 := by
    have : (m : K) ≤ n + 1 := by linarith
    exact_mod_cast le_antisymm this step
  have half : x - m = -(1 / 2) := by linarith
  have half' : y - n = 1 / 2 := by linarith
  have evenM := hx.even (by rw [half, abs_neg, abs_of_pos one_half_pos])
  have evenN := hy.even (by rw [half', abs_of_pos one_half_pos])
  rw [Int.even_iff] at evenM evenN
  omega

theorem RoundsTo.unique (hm : RoundsTo x m) (hn : RoundsTo x n) : m = n :=
  le_antisymm (hm.mono hn le_rfl) (hn.mono hm le_rfl)

omit [IsStrictOrderedRing K] in
theorem RoundsTo.neg (h : RoundsTo x n) : RoundsTo (-x) (-n) := by
  have turned : |-x - ((-n : ℤ) : K)| = |x - n| := by
    rw [Int.cast_neg, sub_neg_eq_add, neg_add_eq_sub, abs_sub_comm]
  exact ⟨turned ▸ h.near, fun tie => (h.even (turned ▸ tie)).neg⟩

theorem roundsTo_intCast (n : ℤ) : RoundsTo (n : K) n := by
  refine ⟨?_, fun tie => ?_⟩
  · rw [sub_self, abs_zero]
    exact one_half_pos.le
  · rw [sub_self, abs_zero] at tie
    exact absurd tie one_half_pos.ne

omit [IsStrictOrderedRing K] in
/-- What lies less than a half away is the nearest. -/
theorem roundsTo_of_lt (h : |x - n| < 1 / 2) : RoundsTo x n := ⟨h.le, fun tie => absurd tie h.ne⟩

/-- No whole number is nearer than the one that a value rounds to. -/
theorem RoundsTo.le (h : RoundsTo x n) (k : ℤ) : |x - n| ≤ |x - k| := by
  by_cases same : k = n
  · rw [same]
  · have apart : (1 : K) ≤ |(k : K) - n| := by exact_mod_cast Int.one_le_abs (sub_ne_zero.mpr same)
    have between : |(k : K) - n| ≤ |x - n| + |x - k| := by
      rw [add_comm, abs_sub_comm x k]
      exact abs_sub_le (k : K) x n
    linarith [h.near]

section Floor

variable [FloorRing K]

/-- The whole number that a value rounds to. -/
def nearestEven (x : K) : ℤ :=
  if Int.fract x < 1 / 2 then ⌊x⌋
  else if 1 / 2 < Int.fract x then ⌊x⌋ + 1
  else ⌊x⌋ + ⌊x⌋ % 2

theorem roundsTo_nearestEven (x : K) : RoundsTo x (nearestEven x) := by
  have parts := Int.floor_add_fract x
  have nonneg := Int.fract_nonneg x
  have below := Int.fract_lt_one x
  unfold nearestEven
  split
  · next low =>
    refine roundsTo_of_lt ?_
    rw [abs_lt]
    constructor <;> linarith
  · split
    · next high =>
      refine roundsTo_of_lt ?_
      rw [abs_lt]
      push_cast
      constructor <;> linarith
    · next low high =>
      have tie : Int.fract x = 1 / 2 := le_antisymm (not_lt.mp high) (not_lt.mp low)
      have half : x = ⌊x⌋ + 1 / 2 := by linarith
      refine ⟨?_, fun _ => Int.even_iff.mpr (by omega)⟩
      rcases Int.emod_two_eq_zero_or_one ⌊x⌋ with even | odd
      · rw [even, add_zero, abs_le]
        constructor <;> linarith
      · rw [odd, abs_le]
        push_cast
        constructor <;> linarith

theorem nearestEven_eq (h : RoundsTo x n) : nearestEven x = n := (roundsTo_nearestEven x).unique h

@[simp] theorem nearestEven_intCast (n : ℤ) : nearestEven (n : K) = n := nearestEven_eq (roundsTo_intCast n)

theorem nearestEven_neg (x : K) : nearestEven (-x) = -nearestEven x := nearestEven_eq (roundsTo_nearestEven x).neg

theorem nearestEven_mono : Monotone (nearestEven : K → ℤ) := fun x y h =>
  (roundsTo_nearestEven x).mono (roundsTo_nearestEven y) h

/-- Between whole numbers it is rounded between them. -/
theorem nearestEven_mem {lo hi : ℤ} (low : (lo : K) ≤ x) (high : x ≤ hi) :
    lo ≤ nearestEven x ∧ nearestEven x ≤ hi := by
  constructor
  · exact nearestEven_intCast (K := K) lo ▸ nearestEven_mono low
  · exact nearestEven_intCast (K := K) hi ▸ nearestEven_mono high

end Floor

end Exact

/-! ## Clipping -/

section Clip

variable {α : Type} [LinearOrder α] {lo hi x y : α}

theorem clip_mem (range : lo ≤ hi) (x : α) : lo ≤ clip lo hi x ∧ clip lo hi x ≤ hi := by
  unfold clip
  split
  · exact ⟨le_rfl, range⟩
  · next low =>
    split
    · exact ⟨range, le_rfl⟩
    · next high => exact ⟨not_lt.mp low, not_lt.mp high⟩

theorem clip_of_mem (low : lo ≤ x) (high : x ≤ hi) : clip lo hi x = x := by
  rw [clip, if_neg (not_lt.mpr low), if_neg (not_lt.mpr high)]

theorem clip_of_le (range : lo ≤ hi) (h : x ≤ lo) : clip lo hi x = lo := by
  rcases h.lt_or_eq with below | rfl
  · rw [clip, if_pos below]
  · exact clip_of_mem le_rfl range

theorem clip_of_ge (range : lo ≤ hi) (h : hi ≤ x) : clip lo hi x = hi := by
  rcases h.lt_or_eq with above | rfl
  · rw [clip, if_neg (not_lt.mpr (range.trans h)), if_pos above]
  · exact clip_of_mem range le_rfl

theorem clip_mono (range : lo ≤ hi) (h : x ≤ y) : clip lo hi x ≤ clip lo hi y := by
  rcases le_total x lo with low | low
  · rw [clip_of_le range low]
    exact (clip_mem range y).1
  · rcases le_total hi y with high | high
    · rw [clip_of_ge range high]
      exact (clip_mem range x).2
    · rwa [clip_of_mem low (h.trans high), clip_of_mem (low.trans h) high]

end Clip

/-! ## Bytes -/

theorem toNat_byteOfInt (n : ℤ) : ((byteOfInt n).toNat : ℤ) = clip 0 255 n := by
  have range := clip_mem (by decide : (0 : ℤ) ≤ 255) n
  have small : (clip 0 255 n).toNat < 2 ^ 8 := by omega
  rw [byteOfInt, UInt8.toNat_ofNat_of_lt' small]
  exact Int.toNat_of_nonneg range.1

theorem byteOfInt_le {m n : ℤ} (h : m ≤ n) : byteOfInt m ≤ byteOfInt n := by
  rw [UInt8.le_iff_toNat_le, ← Int.ofNat_le, toNat_byteOfInt, toNat_byteOfInt]
  exact clip_mono (by decide) h

theorem byteOfInt_of_ge {n : ℤ} (high : 255 ≤ n) : byteOfInt n = 255 := by
  refine UInt8.toNat_inj.mp (Int.natCast_inj.mp ?_)
  rw [toNat_byteOfInt, clip_of_ge (by decide) high]
  rfl

section Exact

variable {K : Type} [ExactField K] [LinearOrder K] [IsStrictOrderedRing K] [FloorRing K] {x : K}

/-- The byte nearest to a value. -/
def exactByte (x : K) : UInt8 := byteOfInt (nearestEven x)

/-- What lies in the range of a byte is rounded and not clipped. -/
theorem toNat_exactByte (low : 0 ≤ x) (high : x ≤ 255) : ((exactByte x).toNat : ℤ) = nearestEven x := by
  have inside : 0 ≤ nearestEven x ∧ nearestEven x ≤ 255 := nearestEven_mem (by simpa using low) (by simpa using high)
  rw [exactByte, toNat_byteOfInt, clip_of_mem inside.1 inside.2]

theorem exactByte_natCast (v : UInt8) : exactByte (v.toNat : K) = v := by
  have whole : nearestEven ((v.toNat : ℤ) : K) = v.toNat := nearestEven_intCast _
  have small := v.toNat_lt
  rw [Int.cast_natCast] at whole
  rw [exactByte, whole, ← UInt8.toNat_inj, ← Int.natCast_inj, toNat_byteOfInt, clip_of_mem (by omega) (by omega)]

theorem exactByte_le {y : K} (h : x ≤ y) : exactByte x ≤ exactByte y := byteOfInt_le (nearestEven_mono h)

end Exact

/-! ## Fractions and doubles -/

variable {num den : Nat}

/-- A fraction of two natural numbers is rounded as its value is. -/
theorem nearestEven_div (num : Nat) (pos : 0 < den) :
    nearestEven ((num : ℚ) / den) = (roundHalfEven num den : Nat) := by
  have denPos : (0 : ℚ) < den := by exact_mod_cast pos
  have floor : ⌊(num : ℚ) / den⌋ = (num / den : Nat) := Rat.floor_natCast_div_natCast num den
  have rest : Int.fract ((num : ℚ) / den) = (num % den : Nat) / den := Int.fract_div_natCast_eq_div_natCast_mod
  have low : ((num % den : Nat) : ℚ) / den < 1 / 2 ↔ 2 * (num % den) < den := by
    rw [div_lt_div_iff₀ denPos two_pos, one_mul, mul_comm]
    exact_mod_cast Iff.rfl
  have high : 1 / 2 < ((num % den : Nat) : ℚ) / den ↔ den < 2 * (num % den) := by
    rw [div_lt_div_iff₀ two_pos denPos, one_mul, mul_comm]
    exact_mod_cast Iff.rfl
  simp only [nearestEven, roundHalfEven, floor, rest, low, high]
  split
  · rfl
  · split <;> push_cast <;> rfl

/-- A double is rounded, in steps of one by `factor`, as its exact value is. -/
theorem nearestEven_scaled (b : Binary) (factor : Nat) :
    nearestEven (b.magnitude * factor) = (b.scaled factor : Nat) := by
  have num : (b.magnitude.num.toNat : ℚ) = b.magnitude.num := by
    exact_mod_cast Int.toNat_of_nonneg (Rat.num_nonneg.mpr b.magnitude_nonneg)
  have value : b.magnitude = b.magnitude.num.toNat / b.magnitude.den := by
    rw [num, Rat.num_div_den]
  rw [Binary.scaled_eq b.magnitude.den_pos value, ← nearestEven_div _ b.magnitude.den_pos, Nat.cast_mul,
    mul_div_right_comm, ← value]

/-- The whole number nearest to a finite double is the one nearest to its exact value. -/
theorem nearestInt?_of_finite {x : Float} {b : Binary} (h : FloatView.of x = .finite b) :
    nearestInt? x = some (nearestEven b.value) := by
  have magnitude := nearestEven_scaled b 1
  rw [Nat.cast_one, mul_one] at magnitude
  rw [nearestInt?, h, Binary.value]
  dsimp only
  split
  · rw [nearestEven_neg, magnitude]
  · rw [magnitude]

/-- The byte nearest to a finite double is the one nearest to its exact value. -/
theorem nearestByte_of_finite {x : Float} {b : Binary} (h : FloatView.of x = .finite b) :
    nearestByte x = exactByte b.value := by
  have top : FloatView.of (255 : Float) = .finite ⟨false, 255 * 2 ^ 45, -45⟩ := by decide +kernel
  have value : Binary.value ⟨false, 255 * 2 ^ 45, -45⟩ = 255 := by
    rw [Binary.value, if_neg Bool.false_ne_true, Binary.magnitude]
    norm_num
  rw [nearestByte, exactByte]
  split
  · next above =>
    rw [FloatView.le_iff_value_le top h, value] at above
    have whole : ((255 : ℤ) : ℚ) ≤ b.value := by exact_mod_cast above
    exact (byteOfInt_of_ge (nearestEven_mem whole (Int.le_ceil _)).1).symm
  · rw [nearestInt?_of_finite h]
    rfl

end VectorGraph
