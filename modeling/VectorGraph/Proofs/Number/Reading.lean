import VectorGraph.Proofs.Number.HalfEven
import VectorGraph.Proofs.Number.Packing

/-!
The double nearest to a fraction.

A fraction is scaled by a power of two until it has as many bits as a double, and rounded there (`nearestBinary_eq`).
No double is nearer to it than what it is rounded to (`Nearest.le`): on the same grid and on coarser ones the rounding
says so, and on a finer grid every double is below the fraction and farther away. So where a fraction has a double
beside it at all, the double it is turned into is at least as near (`exists_nearestDouble`).
-/
namespace VectorGraph

variable {q : ℚ} {m m' : Nat} {e e' : Int}

/-- The fraction is scaled to as many bits as a double has, and rounded. -/
structure Nearest (q : ℚ) (m : Nat) (e : Int) : Prop where
  least : -1074 ≤ e
  rounds : RoundsTo (q / 2 ^ e) m
  below : q / 2 ^ e < 2 ^ 53
  full : e = -1074 ∨ 2 ^ 52 ≤ q / 2 ^ e

/-- A rounded number is not beyond the doubles. -/
def Fits (m : Nat) (e : Int) : Prop := m * Nat.pow 2 e.toNat < Nat.pow 2 1024

instance (m : Nat) (e : Int) : Decidable (Fits m e) := inferInstanceAs (Decidable (_ < _))

namespace Nearest

theorem le_full (h : Nearest q m e) : m ≤ 2 ^ 53 := by
  have top : RoundsTo ((2 ^ 53 : ℤ) : ℚ) (2 ^ 53) := roundsTo_intCast _
  have rounded := h.rounds.mono top (by exact_mod_cast h.below.le)
  exact_mod_cast rounded

theorem full_le (h : Nearest q m e) : e = -1074 ∨ 2 ^ 52 ≤ m := by
  refine h.full.imp_right fun long => ?_
  have bottom : RoundsTo ((2 ^ 52 : ℤ) : ℚ) (2 ^ 52) := roundsTo_intCast _
  have rounded := bottom.mono h.rounds (by exact_mod_cast long)
  exact_mod_cast rounded

/-- No multiple of the last place is nearer. -/
theorem le_multiple (h : Nearest q m e) (k : ℤ) : |m * 2 ^ e - q| ≤ |k * 2 ^ e - q| := by
  have positive : (0 : ℚ) < 2 ^ e := zpow_pos two_pos e
  have scaled (c : ℚ) : |c * 2 ^ e - q| = |q / 2 ^ e - c| * 2 ^ e := by
    rw [← abs_of_pos positive, ← abs_mul, sub_mul, abs_of_pos positive, div_mul_cancel₀ _ positive.ne', abs_sub_comm]
  have near := h.rounds.le k
  rw [Int.cast_natCast] at near
  rw [scaled, scaled]
  exact mul_le_mul_of_nonneg_right near positive.le

/-- No double is nearer. -/
theorem le (h : Nearest q m e) (proper : IsDouble m' e') : |m * 2 ^ e - q| ≤ |m' * 2 ^ e' - q| := by
  rcases le_or_gt e e' with coarser | finer
  · have multiple : (m' : ℚ) * 2 ^ e' = ((m' * 2 ^ (e' - e).toNat : ℤ) : ℚ) * 2 ^ e := by
      have exponent : e' = (e' - e).toNat + e := by omega
      push_cast
      rw [mul_assoc, ← zpow_natCast, ← zpow_add₀ two_ne_zero, ← exponent]
    rw [multiple]
    exact h.le_multiple _
  · -- a double of a finer grid is below the fraction, beyond the first full one of this grid
    have positive : (0 : ℚ) < 2 ^ e := zpow_pos two_pos e
    have full : (2 ^ 52 : ℚ) * 2 ^ e ≤ q :=
      (le_div_iff₀ positive).mp (h.full.resolve_left (by have := proper.least; omega))
    have small : (m' : ℚ) * 2 ^ e' ≤ 2 ^ 52 * 2 ^ e := by
      calc (m' : ℚ) * 2 ^ e' ≤ 2 ^ 53 * 2 ^ e' := by
            gcongr
            exact_mod_cast proper.small.le
        _ = 2 ^ 52 * 2 ^ (e' + 1) := by rw [zpow_add_one₀ two_ne_zero]; ring
        _ ≤ 2 ^ 52 * 2 ^ e := by
            gcongr
            · exact one_le_two
            · omega
    have first := h.le_multiple (2 ^ 52)
    rw [Int.cast_pow, Int.cast_ofNat] at first
    rw [abs_of_nonpos (by linarith : (2 : ℚ) ^ 52 * 2 ^ e - q ≤ 0)] at first
    rw [abs_of_nonpos (by linarith : (m' : ℚ) * 2 ^ e' - q ≤ 0)]
    linarith

end Nearest

/-! ## Scaling -/

/-- A power of two is multiplied to the numerator or to the denominator. -/
theorem scaled_div (num den : Nat) (e : Int) :
    ((num * Nat.pow 2 (-e).toNat : Nat) : ℚ) / (den * Nat.pow 2 e.toNat : Nat) = num / den / 2 ^ e := by
  have power := Shortest.zpow_eq_div 2 e
  rw [Nat.cast_ofNat] at power
  rw [power, Nat.cast_mul, Nat.cast_mul, Nat.pow_eq, Nat.pow_eq, div_div_div_eq]

/-- A fraction lies between the powers of two that the lengths of its parts tell. -/
theorem div_between {num den : Nat} (hn : num ≠ 0) (hd : den ≠ 0) :
    (2 : ℚ) ^ ((num.log2 : Int) - den.log2 - 1) < num / den ∧
      (num / den : ℚ) < 2 ^ ((num.log2 : Int) - den.log2 + 1) := by
  have pos : (0 : ℚ) < den := by exact_mod_cast Nat.pos_of_ne_zero hd
  have numLow : (2 : ℚ) ^ num.log2 ≤ num := by exact_mod_cast Nat.log2_self_le hn
  have numHigh : (num : ℚ) < 2 ^ (num.log2 + 1) := by exact_mod_cast Nat.lt_log2_self
  have denLow : (2 : ℚ) ^ den.log2 ≤ den := by exact_mod_cast Nat.log2_self_le hd
  have denHigh : (den : ℚ) < 2 ^ (den.log2 + 1) := by exact_mod_cast Nat.lt_log2_self
  constructor
  · rw [lt_div_iff₀ pos]
    calc (2 : ℚ) ^ ((num.log2 : Int) - den.log2 - 1) * den
        < 2 ^ ((num.log2 : Int) - den.log2 - 1) * 2 ^ (den.log2 + 1) := by gcongr
      _ = 2 ^ num.log2 := by
          rw [← zpow_natCast, ← zpow_natCast, ← zpow_add₀ two_ne_zero]
          congr 1
          push_cast
          ring
      _ ≤ num := numLow
  · rw [div_lt_iff₀ pos]
    calc (num : ℚ) < 2 ^ (num.log2 + 1) := numHigh
      _ = 2 ^ ((num.log2 : Int) - den.log2 + 1) * 2 ^ den.log2 := by
          rw [← zpow_natCast, ← zpow_natCast, ← zpow_add₀ two_ne_zero]
          congr 1
          push_cast
          ring
      _ ≤ 2 ^ ((num.log2 : Int) - den.log2 + 1) * den := by gcongr

/-- The guess that the lengths of the parts make at an exponent leaves 53 bits, or 54. -/
theorem guess_fits {num den : Nat} (hn : num ≠ 0) (hd : den ≠ 0) {guess : Int}
    (exponent : guess = (num.log2 : Int) - den.log2 - 53) {z : Int}
    (fitted : z = if (num : ℚ) / den / 2 ^ guess < 2 ^ 53 then guess else guess + 1) :
    (2 : ℚ) ^ 52 ≤ num / den / 2 ^ z ∧ (num : ℚ) / den / 2 ^ z < 2 ^ 53 := by
  have positive (z : Int) : (0 : ℚ) < 2 ^ z := zpow_pos two_pos z
  obtain ⟨low, high⟩ := div_between hn hd
  have lower : (2 : ℚ) ^ ((num.log2 : Int) - den.log2 - 1) = 2 ^ 52 * 2 ^ guess := by
    rw [← zpow_natCast, ← zpow_add₀ two_ne_zero]
    congr 1
    omega
  have upper : (2 : ℚ) ^ ((num.log2 : Int) - den.log2 + 1) = 2 ^ 54 * 2 ^ guess := by
    rw [← zpow_natCast, ← zpow_add₀ two_ne_zero]
    congr 1
    omega
  rw [fitted]
  split
  · next fits =>
    rw [le_div_iff₀ (positive _)]
    exact ⟨by linarith, fits⟩
  · next long =>
    have more := not_lt.mp long
    have next : (2 : ℚ) ^ (guess + 1) = 2 * 2 ^ guess := by rw [zpow_add_one₀ two_ne_zero, mul_comm]
    rw [le_div_iff₀ (positive _)] at more
    rw [le_div_iff₀ (positive _), div_lt_iff₀ (positive _), next]
    constructor <;> linarith

/-- A fraction is rounded, and kept unless that is beyond the doubles. -/
theorem nearestBinary_eq (num : Nat) {den : Nat} (pos : 0 < den) : ∃ m e, Nearest ((num : ℚ) / den) m e ∧
    nearestBinary num den = if Fits m e then some (m, e) else none := by
  unfold nearestBinary
  split
  · next zero =>
    obtain rfl : num = 0 := zero.resolve_right pos.ne'
    have nothing : RoundsTo ((0 : ℤ) : ℚ) 0 := roundsTo_intCast 0
    have fits : Fits 0 (-1074) := by
      rw [Fits, Nat.zero_mul]
      apply Nat.pow_pos
      decide
    exact ⟨0, -1074, ⟨le_rfl, by simpa using nothing, by simp, .inl rfl⟩, (if_pos fits).symm⟩
  · next given =>
    obtain ⟨hn, hd⟩ := not_or.mp given
    extract_lets guess up down fitted e m
    have scaled (z : Int) : (up z : ℚ) / down z = num / den / 2 ^ z := scaled_div num den z
    have downPos (z : Int) : 0 < down z := Nat.mul_pos pos (Nat.pow_pos Nat.two_pos)
    have short (z : Int) : up z / down z < Nat.pow 2 53 ↔ (num : ℚ) / den / 2 ^ z < 2 ^ 53 := by
      rw [Nat.pow_eq, Nat.div_lt_iff_lt_mul (downPos z), ← scaled, div_lt_iff₀ (by exact_mod_cast downPos z)]
      exact_mod_cast Iff.rfl
    -- The guess is at most one too low, and is corrected: the quotient has its 53 bits.
    have bits : (2 : ℚ) ^ 52 ≤ num / den / 2 ^ fitted ∧ (num : ℚ) / den / 2 ^ fitted < 2 ^ 53 :=
      guess_fits hn hd rfl (if_congr (short guess) rfl rfl)
    have rounds : RoundsTo ((num : ℚ) / den / 2 ^ e) m := by
      have rounded := roundsTo_nearestEven (((up e : Nat) : ℚ) / (down e : Nat))
      rw [nearestEven_div _ (downPos e), scaled] at rounded
      exact rounded
    have nonneg : (0 : ℚ) ≤ num / den := by positivity
    -- Below the normal numbers the exponent is raised to the least one, and the quotient only gets smaller.
    have below : (num : ℚ) / den / 2 ^ e < 2 ^ 53 := by
      refine lt_of_le_of_lt ?_ bits.2
      gcongr
      · exact one_le_two
      · exact le_max_left _ _
    refine ⟨m, e, ⟨le_max_right _ _, rounds, below, ?_⟩, ?_⟩
    · rcases max_choice fitted (-1074) with same | least
      · exact .inr (by simpa only [e, same] using bits.1)
      · exact .inl least
    · by_cases fits : Fits m e
      · rw [if_pos fits]
        exact if_neg (Nat.not_le.mpr fits)
      · rw [if_neg fits]
        exact if_pos (Nat.not_lt.mp fits)

/-! ## Doubles -/

/-- A number of 53 bits, or the next one, stays below a power of two if its exponent does. -/
theorem mul_pow_lt_iff {m d k : Nat} (least : 2 ^ 52 ≤ m) (full : m ≤ 2 ^ 53) :
    m * Nat.pow 2 d < Nat.pow 2 k ↔ d + 53 < k ∨ d + 53 = k ∧ m < 2 ^ 53 := by
  simp only [Nat.pow_eq]
  constructor
  · intro below
    have lower : 2 ^ (52 + d) < 2 ^ k :=
      calc 2 ^ (52 + d) = 2 ^ 52 * 2 ^ d := Nat.pow_add 2 52 d
        _ ≤ m * 2 ^ d := Nat.mul_le_mul_right _ least
        _ < 2 ^ k := below
    have exponent := (Nat.pow_lt_pow_iff_right Nat.one_lt_two).mp lower
    by_cases top : d + 53 = k
    · rw [← top, Nat.add_comm, Nat.pow_add] at below
      exact .inr ⟨top, Nat.lt_of_mul_lt_mul_right below⟩
    · exact .inl (by omega)
  · rintro (low | ⟨rfl, below⟩)
    · calc m * 2 ^ d ≤ 2 ^ 53 * 2 ^ d := Nat.mul_le_mul_right _ full
        _ = 2 ^ (d + 53) := by rw [← Nat.pow_add, Nat.add_comm]
        _ < 2 ^ k := Nat.pow_lt_pow_right Nat.one_lt_two low
    · rw [Nat.add_comm, Nat.pow_add]
      exact Nat.mul_lt_mul_of_pos_right below (Nat.two_pow_pos d)

/-- The field of the exponent and the rest of the mantissa, of which the leading bit counts to the field. -/
theorem of_doubleOfBinary {w v : Nat} (bits : (e + 1074).toNat * 2 ^ 52 + m = w * 2 ^ 52 + v) (field : w < 2047)
    (rest : v < 2 ^ 52) : FloatView.of (doubleOfBinary m e) =
      if w = 0 then .finite ⟨false, v, -1074⟩ else .finite ⟨false, 2 ^ 52 + v, (w : Int) - 1075⟩ := by
  have read := FloatView.ofBits_parts (by decide : 0 < 2) field rest
  have same : (0 * 2 ^ 63 + w * 2 ^ 52 + v).toUInt64.toNat = 0 * 2 ^ 63 + w * 2 ^ 52 + v :=
    UInt64.toNat_ofNat_of_lt' (by simp only [UInt64.size]; omega)
  rw [Nat.zero_mul, Nat.zero_add] at read same
  rw [doubleOfBinary, Nat.pow_eq, bits]
  split
  · next zero =>
    rw [if_pos zero] at read
    exact FloatView.of_ofBits (same.symm ▸ read)
  · next some_ =>
    rw [if_neg some_] at read
    exact FloatView.of_ofBits (same.symm ▸ read)

/-- What is rounded is the value of a double, unless it is beyond all of them. -/
theorem Nearest.exists_finite (h : Nearest q m e) (fits : Fits m e) :
    ∃ b, FloatView.of (doubleOfBinary m e) = .finite b ∧ b.negative = false ∧ b.magnitude = m * 2 ^ e := by
  have least := h.least
  have full := h.le_full
  rcases Nat.lt_or_ge m (2 ^ 52) with short | long
  · obtain rfl := h.full_le.resolve_right (by omega)
    have view := of_doubleOfBinary (e := -1074) (m := m) (w := 0) (v := m) (by omega) (by decide) short
    exact ⟨_, view, rfl, rfl⟩
  · have size := (mul_pow_lt_iff long full).mp fits
    rcases Nat.lt_or_ge m (2 ^ 53) with small | carried
    · have view := of_doubleOfBinary (e := e) (m := m) (w := (e + 1075).toNat) (v := m - 2 ^ 52) (by omega) (by omega)
        (by omega)
      rw [if_neg (by omega)] at view
      refine ⟨_, view, rfl, ?_⟩
      have mantissa : 2 ^ 52 + (m - 2 ^ 52) = m := by omega
      have exponent : ((e + 1075).toNat : Int) - 1075 = e := by omega
      rw [Binary.magnitude, mantissa, exponent]
    · -- the mantissa is rounded up to one bit more
      obtain rfl : m = 2 ^ 53 := by omega
      have view := of_doubleOfBinary (e := e) (m := 2 ^ 53) (w := (e + 1076).toNat) (v := 0) (by omega) (by omega)
        (by decide)
      rw [if_neg (by omega)] at view
      refine ⟨_, view, rfl, ?_⟩
      have exponent : ((e + 1076).toNat : Int) - 1075 = e + 1 := by omega
      rw [Binary.magnitude, exponent, zpow_add_one₀ two_ne_zero]
      push_cast
      ring

variable {b : Binary}

/-- Doubles of an exponent are a whole last place below the power of two that has the next one. -/
theorem Binary.magnitude_lt {k : Nat} (proper : IsDouble b.mantissa b.exponent) (most : b.exponent ≤ k) (pos : 0 < k) :
    b.magnitude + 1 < 2 ^ (53 + k) := by
  have mantissa : (b.mantissa : ℚ) ≤ 2 ^ 53 - 1 := by
    have small : (b.mantissa : ℚ) + 1 ≤ 2 ^ 53 := by exact_mod_cast proper.small
    linarith
  have power : (2 : ℚ) ^ b.exponent ≤ 2 ^ k := by
    rw [← zpow_natCast]
    exact zpow_le_zpow_right₀ one_le_two most
  have large : (1 : ℚ) < 2 ^ k := one_lt_pow₀ one_lt_two pos.ne'
  have product : b.magnitude ≤ (2 ^ 53 - 1) * 2 ^ k :=
    mul_le_mul mantissa power (zpow_nonneg zero_le_two _) (by norm_num)
  rw [pow_add]
  linarith

/-- What is not far above a double is not rounded beyond the doubles. -/
theorem Nearest.fits (h : Nearest q m e) (proper : IsDouble b.mantissa b.exponent)
    (beside : q ≤ b.magnitude + 1 / 2) : Fits m e := by
  have bounded : ∀ k l : Nat, 53 + k = l → 0 < k → b.exponent ≤ k → m * Nat.pow 2 e.toNat < Nat.pow 2 l := by
    rintro k _ rfl pos most
    have room := Binary.magnitude_lt proper most pos
    have below : (m : ℚ) * 2 ^ e < 2 ^ (53 + k) := by
      have near := (abs_le.mp (h.le proper)).2
      change (m : ℚ) * 2 ^ e - q ≤ |b.magnitude - q| at near
      rcases abs_choice (b.magnitude - q) with above | under <;> linarith
    rcases le_or_gt 0 e with up | down
    · rw [← Int.toNat_of_nonneg up, zpow_natCast] at below
      exact_mod_cast below
    · rw [Int.toNat_of_nonpos down.le, Nat.pow_eq, Nat.pow_eq, Nat.pow_zero, Nat.mul_one]
      exact h.le_full.trans_lt (Nat.pow_lt_pow_right Nat.one_lt_two (by omega))
  unfold Fits
  apply bounded 971
  · rfl
  · decide
  · exact proper.most

/-- Where a number has a double beside it, the double that it is turned into is at least as near. -/
theorem exists_nearestDouble {num den : Nat} (pos : 0 < den) (proper : IsDouble b.mantissa b.exponent) {t : ℚ}
    {negative : Bool} (given : t = if negative then -(num / den : ℚ) else num / den) (near : |b.value - t| ≤ 1 / 2) :
    ∃ y b', nearestDouble negative num den = some y ∧ FloatView.of y = .finite b' ∧
      |b'.value - t| ≤ |b.value - t| := by
  obtain ⟨m, e, nearest, found⟩ := nearestBinary_eq num pos
  have size : |t| = num / den := by
    rw [given]
    split
    · rw [abs_neg, abs_of_nonneg (by positivity)]
    · exact abs_of_nonneg (by positivity)
  have beside : |b.magnitude - num / den| ≤ |b.value - t| := by
    rw [← b.abs_value, ← size]
    exact abs_abs_sub_abs_le b.value t
  have closest : |m * 2 ^ e - (num / den : ℚ)| ≤ |b.value - t| := (nearest.le proper).trans beside
  have fits := nearest.fits proper (by linarith [(abs_le.mp (beside.trans near)).1])
  rw [if_pos fits] at found
  obtain ⟨b', view, positive, magnitude⟩ := nearest.exists_finite fits
  cases negative with
  | false =>
    refine ⟨_, b', by rw [nearestDouble, found]; rfl, view, ?_⟩
    rw [Binary.value_of_positive positive, magnitude, given]
    rwa [given] at closest
  | true =>
    have turned : Binary.value ⟨!b'.negative, b'.mantissa, b'.exponent⟩ = -(m * 2 ^ e) := by
      rw [Binary.value_of_negative (by simp [positive]), ← magnitude]
      rfl
    refine ⟨_, _, by rw [nearestDouble, found]; rfl, FloatView.of_neg view, ?_⟩
    rw [turned, given, if_pos rfl, neg_sub_neg, abs_sub_comm]
    rwa [given, if_pos rfl] at closest

/-- What a fraction is turned into is finite. -/
theorem exists_finite_of_nearestDouble {num den : Nat} (pos : 0 < den) {negative : Bool} {x : Float}
    (h : nearestDouble negative num den = some x) : ∃ b, FloatView.of x = .finite b := by
  obtain ⟨m, e, nearest, found⟩ := nearestBinary_eq num pos
  obtain ⟨⟨m', e'⟩, kept, rfl⟩ := Option.map_eq_some_iff.mp h
  rw [found] at kept
  split at kept
  · next fits =>
    obtain ⟨rfl, rfl⟩ := Prod.mk.inj (Option.some.inj kept)
    obtain ⟨b, view, -⟩ := nearest.exists_finite fits
    dsimp only
    split
    · exact ⟨_, FloatView.of_neg view⟩
    · exact ⟨b, view⟩
  · cases kept

end VectorGraph
