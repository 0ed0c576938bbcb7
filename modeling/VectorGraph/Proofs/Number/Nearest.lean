import VectorGraph.Proofs.Number.Decimals

/-!
Rounding to the nearest whole number, a half to the even one.

What is rounded lies at most a half beside the result (`roundHalfEven_near`). So rounding keeps the order, and
keeps two fractions apart that differ by more than one (`roundHalfEven_lt`). It depends on the value of a fraction
only, whatever its denominator is, and a double is therefore written with a number of places as any fraction that is
equal to it (`fixedText_eq`).
-/
namespace VectorGraph

variable {num num' den den' : Nat}

theorem roundHalfEven_near (num : Nat) (pos : 0 < den) :
    2 * num ≤ 2 * (roundHalfEven num den * den) + den ∧ 2 * (roundHalfEven num den * den) ≤ 2 * num + den := by
  have parts := Nat.div_add_mod' num den
  have rest := Nat.mod_lt num pos
  have parity := Nat.mod_two_eq_zero_or_one (num / den)
  simp only [roundHalfEven]
  split
  · omega
  · split
    · rw [Nat.add_mul]
      omega
    · rcases parity with even | odd
      · rw [even, Nat.add_zero]
        omega
      · rw [odd, Nat.add_mul]
        omega

/-- Two fractions that differ by more than one are rounded to different numbers. -/
theorem roundHalfEven_lt (pos : 0 < den) (h : num + den < num') : roundHalfEven num den < roundHalfEven num' den := by
  have above := (roundHalfEven_near num pos).2
  have below := (roundHalfEven_near num' pos).1
  exact Nat.lt_of_mul_lt_mul_right (a := den) (by omega)

theorem roundHalfEven_mono (pos : 0 < den) (h : num ≤ num') : roundHalfEven num den ≤ roundHalfEven num' den := by
  by_contra less
  have above := (roundHalfEven_near num pos).2
  have below := (roundHalfEven_near num' pos).1
  have step : (roundHalfEven num' den + 1) * den ≤ roundHalfEven num den * den :=
    Nat.mul_le_mul_right den (Nat.not_le.mp less)
  -- both are a half away from what they round, on opposite sides, so that they round the same
  have same : num = num' := by
    rw [Nat.add_mul] at step
    omega
  exact less (same ▸ le_rfl)

theorem roundHalfEven_le_of_lt {n : Nat} (h : 2 * num < (2 * n + 1) * den) : roundHalfEven num den ≤ n := by
  have pos : 0 < den := Nat.pos_of_ne_zero fun zero => by simp [zero] at h
  have above := (roundHalfEven_near num pos).2
  have less : roundHalfEven num den * den < (n + 1) * den := by
    rw [Nat.add_mul, Nat.mul_assoc] at *
    omega
  exact Nat.le_of_lt_succ (Nat.lt_of_mul_lt_mul_right less)

/-- A whole number is not changed. -/
theorem roundHalfEven_mul (n : Nat) (pos : 0 < den) : roundHalfEven (n * den) den = n := by
  simp only [roundHalfEven, Nat.mul_div_cancel n pos, Nat.mul_mod_left, Nat.mul_zero, pos, if_true]

theorem roundHalfEven_mul_mul {k : Nat} (pos : 0 < k) (num den : Nat) :
    roundHalfEven (k * num) (k * den) = roundHalfEven num den := by
  simp only [roundHalfEven, Nat.mul_div_mul_left num den pos, Nat.mul_mod_mul_left, Nat.mul_left_comm 2 k,
    Nat.mul_lt_mul_left pos]

/-- Equal fractions are rounded to the same number. -/
theorem roundHalfEven_congr (pos : 0 < den) (pos' : 0 < den') (same : num * den' = num' * den) :
    roundHalfEven num den = roundHalfEven num' den' :=
  calc roundHalfEven num den
      = roundHalfEven (den' * num) (den' * den) := (roundHalfEven_mul_mul pos' num den).symm
    _ = roundHalfEven (den * num') (den * den') := by
        rw [Nat.mul_comm den' num, same, Nat.mul_comm num' den, Nat.mul_comm den' den]
    _ = roundHalfEven num' den' := roundHalfEven_mul_mul pos num' den'

/-! ## Numbers with places -/

/-- Different numbers of units are written differently. -/
theorem fixedDigits_injective (places : Nat) : Function.Injective (fixedDigits places) := by
  have text : ∀ count, (fixedDigits places count).toList =
      (count / Nat.pow 10 places).repr.toList ++ '.' :: (padded places (count % Nat.pow 10 places)).toList := by
    intro count
    rw [fixedDigits, String.toList_append, String.toList_append, List.append_assoc]
    rfl
  have noPoint : ∀ n : Nat, '.' ∉ n.repr.toList ∧ '.' ∉ (padded places n).toList := fun n =>
    ⟨fun mem => ne_of_isDigit (isDigit_of_mem_repr mem) (d := '.') (by decide) rfl,
      fun mem => ne_of_isDigit (isDigit_padded mem) (d := '.') (by decide) rfl⟩
  intro count count' same
  have texts := congrArg String.toList same
  rw [text, text] at texts
  obtain ⟨whole, -, rest⟩ := (List.append_cons_inj_of_notMem (noPoint _).1 (noPoint _).2).mp texts
  have sameWhole := (count_repr _).symm.trans ((congrArg Decimal.count whole).trans (count_repr _))
  have sameRest := (count_padded places _).symm.trans ((congrArg Decimal.count rest).trans (count_padded places _))
  rw [← Nat.div_add_mod count (Nat.pow 10 places), sameWhole, sameRest, Nat.div_add_mod]

/-- The magnitude of a double. -/
def Binary.magnitude (b : Binary) : ℚ := b.mantissa * 2 ^ b.exponent

theorem Binary.scaled_eq {b : Binary} (pos : 0 < den) (value : b.magnitude = num / den) (factor : Nat) :
    b.scaled factor = roundHalfEven (num * factor) den := by
  have nonzero : (den : ℚ) ≠ 0 := by exact_mod_cast pos.ne'
  rw [eq_div_iff nonzero, Binary.magnitude] at value
  unfold Binary.scaled
  cases exponent : b.exponent with
  | ofNat e =>
    rw [exponent, Int.ofNat_eq_natCast, zpow_natCast] at value
    have whole : b.mantissa * Nat.pow 2 e * den = num := by exact_mod_cast value
    rw [← whole, Nat.mul_right_comm, roundHalfEven_mul _ pos]
  | negSucc e =>
    rw [exponent, zpow_negSucc, mul_assoc, inv_mul_eq_div, mul_div_assoc', div_eq_iff (by positivity)] at value
    have cross : b.mantissa * den = num * Nat.pow 2 (e + 1) := by exact_mod_cast value
    refine roundHalfEven_congr (Nat.pow_pos Nat.two_pos) pos ?_
    rw [Nat.mul_right_comm, cross, Nat.mul_right_comm]

/-- A double that is equal to a fraction is written as the fraction is. -/
theorem fixedText_eq {x : Float} {b : Binary} (view : FloatView.of x = .finite b) (positive : b.negative = false)
    (pos : 0 < den) (value : b.magnitude = num / den) (places : Nat) :
    fixedText places x = fixedDigits places (roundHalfEven (num * Nat.pow 10 places) den) := by
  rw [fixedText, view]
  dsimp only
  rw [positive, Binary.scaled_eq pos value]
  exact String.empty_append

end VectorGraph
