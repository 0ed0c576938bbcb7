import Mathlib.Algebra.Order.Ring.Nat
import Mathlib.Tactic.Tauto
import VectorGraph.Operator.Basic

/-!
Fractions that a double can hold.

A fraction with a numerator below `2 ^ 53` is never rounded up beyond the doubles, whatever its denominator is.
-/
namespace VectorGraph

theorem roundHalfEven_le (num den : Nat) : roundHalfEven num den ≤ num / den + 1 := by
  have even : num / den % 2 < 2 := Nat.mod_lt _ Nat.two_pos
  simp only [roundHalfEven]
  split
  · omega
  · split <;> omega

/-- Such a fraction is scaled up, to at most 54 bits. -/
theorem nearestBinary_ne_none {num : Nat} (small : num < 2 ^ 53) (den : Nat) : nearestBinary num den ≠ none := by
  unfold nearestBinary
  split
  · nofun
  rename_i given
  obtain ⟨hn, hd⟩ : num ≠ 0 ∧ den ≠ 0 := by tauto
  extract_lets guess up down fitted e m
  have bits : num.log2 < 53 := (Nat.log2_lt hn).mpr small
  have near : guess ≤ fitted ∧ fitted ≤ guess + 1 := by
    simp only [fitted]
    split <;> omega
  -- The exponent is at most zero: the denominator is not scaled, and the numerator by no more than its missing bits.
  have notUp : e ≤ 0 := by omega
  have notBelow : (-e).toNat ≤ 53 + den.log2 - num.log2 := by omega
  have unscaled : Nat.pow 2 e.toNat = 1 := by rw [Int.toNat_of_nonpos notUp]
  have below : up e < 2 ^ 54 * den :=
    calc up e ≤ num * 2 ^ (53 + den.log2 - num.log2) :=
          Nat.mul_le_mul_left num (Nat.pow_le_pow_right Nat.two_pos notBelow)
      _ < 2 ^ (num.log2 + 1) * 2 ^ (53 + den.log2 - num.log2) :=
          Nat.mul_lt_mul_of_pos_right Nat.lt_log2_self (Nat.two_pow_pos _)
      _ = 2 ^ 54 * 2 ^ den.log2 := by rw [← Nat.pow_add, ← Nat.pow_add]; congr 1; omega
      _ ≤ 2 ^ 54 * den := Nat.mul_le_mul_left _ (Nat.log2_self_le hd)
  have fits : m ≤ 2 ^ 54 := by
    have quotient : up e / down e < 2 ^ 54 := by
      rw [show down e = den from by simp only [down, unscaled, Nat.mul_one]]
      exact Nat.div_lt_of_lt_mul (by rw [Nat.mul_comm]; exact below)
    have := roundHalfEven_le (up e) (down e)
    omega
  have wide : ∀ k, 54 < k → m < Nat.pow 2 k := fun k above =>
    Nat.lt_of_le_of_lt fits (Nat.pow_lt_pow_right Nat.one_lt_two above)
  rw [unscaled, Nat.mul_one, if_neg (Nat.not_le.mpr (wide 1024 (by decide)))]
  nofun

theorem nearestDouble_ne_none {num : Nat} (small : num < 2 ^ 53) (negative : Bool) (den : Nat) :
    nearestDouble negative num den ≠ none := by
  rw [nearestDouble, ne_eq, Option.map_eq_none_iff]
  exact nearestBinary_ne_none small den

theorem doubleOfInt_ne_none {n : Int} (small : n.natAbs < 2 ^ 53) : doubleOfInt n ≠ none :=
  nearestDouble_ne_none small _ 1

theorem ratio_eq_ok {a b : Int} (small : a.natAbs < 2 ^ 53) (given_ : b ≠ 0) : ∃ x, ratio a b = .ok x := by
  obtain ⟨x, hx⟩ := Option.ne_none_iff_exists'.mp
    (nearestDouble_ne_none small (decide (a < 0) != decide (b < 0)) b.natAbs)
  exact ⟨x, by rw [ratio, if_neg given_, hx]⟩

theorem double_eq_ok {n : Int} (small : n.natAbs < 2 ^ 53) : ∃ x, double n = .ok x := by
  obtain ⟨x, hx⟩ := Option.ne_none_iff_exists'.mp (doubleOfInt_ne_none small)
  exact ⟨x, by rw [double, hx]⟩

end VectorGraph
