import VectorGraph.Proofs.Number.Held
import VectorGraph.Proofs.Number.Reading

/-!
Integers as doubles.

What comes of an integer is a finite double (`exists_finite_of_doubleOfInt`), and every finite double without its
fraction is an integer that a double can hold (`doubleOfInt_truncate`).
-/
namespace VectorGraph

theorem isFiniteDouble_iff {x : Float} : isFiniteDouble x = true ↔ ∃ b, FloatView.of x = .finite b := by
  unfold isFiniteDouble
  cases FloatView.of x <;> simp

/-- The double nearest to an integer is finite. -/
theorem exists_finite_of_doubleOfInt {n : Int} {x : Float} (h : doubleOfInt n = some x) :
    ∃ b, FloatView.of x = .finite b := exists_finite_of_nearestDouble Nat.one_pos h

theorem natAbs_truncate (b : Binary) : b.truncate.natAbs = b.floorAbs := by
  unfold Binary.truncate
  split <;> simp

/-- Without its fraction a double is not greater. -/
theorem floorAbs_le_magnitude (b : Binary) : (b.floorAbs : ℚ) ≤ b.magnitude := by
  unfold Binary.floorAbs Binary.magnitude
  cases exponent : b.exponent with
  | ofNat e =>
    rw [Int.ofNat_eq_natCast, zpow_natCast]
    dsimp only
    rw [Nat.pow_eq, Nat.cast_mul, Nat.cast_pow, Nat.cast_ofNat]
  | negSucc e =>
    rw [zpow_negSucc, ← div_eq_mul_inv]
    dsimp only
    rw [Nat.pow_eq]
    exact_mod_cast Nat.cast_div_le (m := b.mantissa) (n := 2 ^ (e + 1)) (α := ℚ)

/-- A finite double without its fraction is an integer that a double can hold. -/
theorem doubleOfInt_truncate {x : Float} {b : Binary} (h : FloatView.of x = .finite b) :
    doubleOfInt b.truncate ≠ none := by
  obtain ⟨m, e, nearest, found⟩ := nearestBinary_eq b.truncate.natAbs Nat.one_pos
  have below : (b.truncate.natAbs : ℚ) / (1 : Nat) ≤ b.magnitude + 1 / 2 := by
    rw [natAbs_truncate, Nat.cast_one, div_one]
    linarith [floorAbs_le_magnitude b]
  rw [if_pos (nearest.fits (FloatView.isDouble_of h) below)] at found
  rw [doubleOfInt, nearestDouble, found]
  exact Option.some_ne_none _

end VectorGraph
