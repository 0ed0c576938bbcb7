import Mathlib.Algebra.Order.Field.Power
import Mathlib.Data.Rat.Floor
import Mathlib.Tactic.FieldSimp
import Mathlib.Tactic.Linarith
import Mathlib.Tactic.Positivity
import Mathlib.Tactic.Ring
import VectorGraph.Number.Shortest
import VectorGraph.Proofs.Number.Doubles

/-!
The shortest digits read back.

The numbers that are read as the double `m · 2 ^ e` lie between the middles to its neighbours, and on a middle only
where the mantissa is even (`ReadsAs`). Two such ranges never meet (`ReadsAs.unique`), so a number that is read as a
double tells which one.

The search for digits tries finer and finer grids. What it finds on a grid lies in the range, as the comparisons over
a common denominator say, and at the seventeenth digit a step is shorter than half the range, so something is found
(`onGrid_ne_none`). The count it returns is therefore read as the double it was made for (`readsAs_search`).
-/
namespace VectorGraph

namespace Shortest

/-- A quarter of the last place. -/
def quarter (e : Int) : ℚ := 2 ^ (e - 2)

/-- The number lies between the middles to the neighbours of the double `m · 2 ^ e`, and on neither if `m` is odd. -/
structure ReadsAs (m : Nat) (e : Int) (q : ℚ) : Prop where
  lower : (4 * m - (interval m e).below) * quarter e ≤ q
  upper : q ≤ (4 * m + 2) * quarter e
  inner : m % 2 = 1 → (4 * m - (interval m e).below) * quarter e < q ∧ q < (4 * m + 2) * quarter e

variable {m m' : Nat} {e e' : Int} {q : ℚ}

theorem quarter_pos (e : Int) : 0 < quarter e := zpow_pos (by norm_num) _

theorem quarter_lt (h : e < e') : 2 * quarter e ≤ quarter e' := by
  have : quarter e * 2 = 2 ^ (e - 2 + 1) := by rw [zpow_add_one₀ (by norm_num), quarter]
  rw [mul_comm, this, quarter]
  exact zpow_le_zpow_right₀ (by norm_num) (by omega)

theorem below_le (m : Nat) (e : Int) : ((interval m e).below : ℚ) ≤ 2 := by
  simp only [interval]
  split <;> norm_num

/-- Two doubles with one exponent are read from different numbers. Where their ranges meet, one of the mantissas is
odd. -/
theorem not_readsAs_of_lt (h : m < m') (reads : ReadsAs m e q) (reads' : ReadsAs m' e q) : False := by
  have pos := quarter_pos e
  have below := below_le m' e
  by_cases next : m' = m + 1
  · -- of two neighbours one is odd
    have lower : (4 * (m : ℚ) + 2) * quarter e ≤ (4 * m' - (interval m' e).below) * quarter e := by
      refine mul_le_mul_of_nonneg_right ?_ pos.le
      rw [next]
      push_cast
      linarith [next ▸ below]
    rcases Nat.mod_two_eq_zero_or_one m with even | odd
    · have := (reads'.inner (by omega)).1
      linarith [reads.upper]
    · have := (reads.inner odd).2
      linarith [reads'.lower]
  · have : (m : ℚ) + 2 ≤ m' := by exact_mod_cast (by omega : m + 2 ≤ m')
    have := reads.upper
    have := reads'.lower
    nlinarith

/-- Two doubles with different exponents are read from different numbers. The mantissa of the greater one is full, so
the ranges can meet only above the largest mantissa, which is odd. -/
theorem not_readsAs_of_exponent_lt (proper : IsDouble m e) (proper' : IsDouble m' e') (h : e < e')
    (reads : ReadsAs m e q) (reads' : ReadsAs m' e' q) : False := by
  have pos := quarter_pos e
  have double := quarter_lt h
  have small : (m : ℚ) ≤ 2 ^ 53 - 1 := by
    have := proper.small
    have : (m : ℚ) + 1 ≤ 2 ^ 53 := by exact_mod_cast this
    linarith
  have full : 2 ^ 52 ≤ m' := proper'.full.resolve_right (by have := proper.least; omega)
  have upper := reads.upper
  have lower := reads'.lower
  -- Just below a power of two the greater double is read from half as wide a range.
  by_cases least : m' = 2 ^ 52
  · have below : (interval m' e').below = 1 := by
      simp only [interval]
      rw [if_pos ⟨least, by have := proper.least; omega⟩]
    rw [below, least] at lower
    push_cast at lower
    by_cases odd : m % 2 = 1
    · have := (reads.inner odd).2
      nlinarith
    · have : (m : ℚ) ≤ 2 ^ 53 - 2 := by
        have := proper.small
        have : m + 2 ≤ 2 ^ 53 := by omega
        have : (m : ℚ) + 2 ≤ 2 ^ 53 := by exact_mod_cast this
        linarith
      nlinarith
  · have : (2 : ℚ) ^ 52 + 1 ≤ m' := by exact_mod_cast (by omega : 2 ^ 52 + 1 ≤ m')
    have below := below_le m' e'
    nlinarith

/-- No number is read as two doubles. -/
theorem ReadsAs.unique (proper : IsDouble m e) (proper' : IsDouble m' e') (reads : ReadsAs m e q)
    (reads' : ReadsAs m' e' q) : m = m' ∧ e = e' := by
  rcases lt_trichotomy e e' with less | rfl | less
  · exact (not_readsAs_of_exponent_lt proper proper' less reads reads').elim
  · rcases lt_trichotomy m m' with less | same | less
    · exact (not_readsAs_of_lt less reads reads').elim
    · exact ⟨same, rfl⟩
    · exact (not_readsAs_of_lt less reads' reads).elim
  · exact (not_readsAs_of_exponent_lt proper' proper less reads' reads).elim

/-! ## On a grid -/

theorem zpow_eq_div (b : Nat) (z : Int) : (b : ℚ) ^ z = (b ^ z.toNat : Nat) / (b ^ (-z).toNat : Nat) := by
  rcases le_total 0 z with h | h
  · obtain ⟨n, rfl⟩ := Int.eq_ofNat_of_zero_le h
    simp
  · obtain ⟨n, rfl⟩ := Int.exists_eq_neg_ofNat h
    simp

section Grid

variable (e unit : Int)

/-- So many quarters of the last place, over the common denominator. -/
def quarters (x : Nat) : Nat := x * Nat.pow 2 (e - 2).toNat * Nat.pow 10 (-unit).toNat

/-- A step of `10 ^ unit`, over the common denominator. -/
def step : Nat := Nat.pow 10 unit.toNat * Nat.pow 2 (2 - e).toNat

/-- The common denominator. -/
def common : Nat := Nat.pow 2 (2 - e).toNat * Nat.pow 10 (-unit).toNat

variable {e unit} {x c : Nat}

theorem common_pos : (0 : ℚ) < common e unit := by
  exact_mod_cast Nat.mul_pos (Nat.pow_pos Nat.two_pos) (Nat.pow_pos (by decide))

theorem cast_quarters : (quarters e unit x : ℚ) = x * quarter e * common e unit := by
  have binary := zpow_eq_div 2 (e - 2)
  rw [neg_sub, Nat.cast_ofNat] at binary
  have nonzero : ((2 ^ (2 - e).toNat : Nat) : ℚ) ≠ 0 := by exact_mod_cast (Nat.pow_pos Nat.two_pos).ne'
  simp only [quarter, binary, common, quarters, Nat.pow_eq]
  push_cast at nonzero ⊢
  field_simp

theorem cast_steps : ((c * step e unit : Nat) : ℚ) = c * 10 ^ unit * common e unit := by
  have decimal := zpow_eq_div 10 unit
  rw [Nat.cast_ofNat] at decimal
  have nonzero : ((10 ^ (-unit).toNat : Nat) : ℚ) ≠ 0 := by exact_mod_cast (Nat.pow_pos (by decide)).ne'
  simp only [decimal, common, step, Nat.pow_eq]
  push_cast at nonzero ⊢
  field_simp

theorem quarters_le_steps : quarters e unit x ≤ c * step e unit ↔ x * quarter e ≤ c * 10 ^ unit := by
  rw [← Nat.cast_le (α := ℚ), cast_quarters, cast_steps, mul_le_mul_iff_left₀ common_pos]

theorem steps_le_quarters : c * step e unit ≤ quarters e unit x ↔ c * 10 ^ unit ≤ x * quarter e := by
  rw [← Nat.cast_le (α := ℚ), cast_quarters, cast_steps, mul_le_mul_iff_left₀ common_pos]

theorem quarters_lt_steps : quarters e unit x < c * step e unit ↔ x * quarter e < c * 10 ^ unit := by
  rw [← not_le, steps_le_quarters, not_le]

theorem steps_lt_quarters : c * step e unit < quarters e unit x ↔ c * 10 ^ unit < x * quarter e := by
  rw [← not_le, quarters_le_steps, not_le]

variable (m e unit) in
/-- Whether a number of steps is inside the interval, as it is found out. -/
def isInside (c : Nat) : Bool :=
  if m % 2 == 0 then
    quarters e unit (4 * m - (interval m e).below) ≤ c * step e unit && c * step e unit ≤ quarters e unit (4 * m + 2)
  else quarters e unit (4 * m - (interval m e).below) < c * step e unit && c * step e unit < quarters e unit (4 * m + 2)

theorem isInside_iff (positive : 0 < m) : isInside m e unit c = true ↔ ReadsAs m e (c * 10 ^ unit) := by
  have low : ((4 * m - (interval m e).below : Nat) : ℚ) = 4 * m - (interval m e).below := by
    rw [Nat.cast_sub (by simp only [interval]; split <;> omega)]
    push_cast
    rfl
  have high : ((4 * m + 2 : Nat) : ℚ) = 4 * m + 2 := by push_cast; rfl
  unfold isInside
  split
  · next even =>
    rw [Bool.and_eq_true, decide_eq_true_iff, decide_eq_true_iff, quarters_le_steps, steps_le_quarters, low, high]
    refine ⟨fun h => ⟨h.1, h.2, fun odd => ?_⟩, fun h => ⟨h.lower, h.upper⟩⟩
    rw [beq_iff_eq] at even
    omega
  · next odd =>
    rw [Bool.and_eq_true, decide_eq_true_iff, decide_eq_true_iff, quarters_lt_steps, steps_lt_quarters, low, high]
    refine ⟨fun h => ⟨h.1.le, h.2.le, fun _ => h⟩, fun h => h.inner ?_⟩
    rw [beq_iff_eq] at odd
    omega

variable (m e unit) in
/-- The grid point below the value. -/
def floor : Nat := quarters e unit (4 * m) / step e unit

theorem onGrid_eq : onGrid (interval m e) unit =
    let rest := 2 * (quarters e unit (4 * m) % step e unit)
    match isInside m e unit (floor m e unit), isInside m e unit (floor m e unit + 1) with
    | true, true => some (if rest < step e unit then floor m e unit
        else if step e unit < rest then floor m e unit + 1 else floor m e unit + floor m e unit % 2)
    | true, false => some (floor m e unit)
    | false, true => some (floor m e unit + 1)
    | false, false => none := rfl

/-- What is found on a grid is inside. -/
theorem isInside_of_onGrid (found : onGrid (interval m e) unit = some c) : isInside m e unit c = true := by
  rw [onGrid_eq] at found
  have even := Nat.mod_two_eq_zero_or_one (floor m e unit)
  split at found
  · next low high =>
    obtain rfl := Option.some.inj found
    split
    · exact low
    · split
      · exact high
      · rcases even with h | h <;> rw [h] <;> assumption
  · next low high => exact Option.some.inj found ▸ low
  · next low high => exact Option.some.inj found ▸ high
  · cases found

/-- Where nothing is found, neither neighbour of the value is inside. -/
theorem not_isInside_of_onGrid (missing : onGrid (interval m e) unit = none) :
    isInside m e unit (floor m e unit) = false ∧ isInside m e unit (floor m e unit + 1) = false := by
  rw [onGrid_eq] at missing
  split at missing
  · cases missing
  · cases missing
  · cases missing
  · next low high => exact ⟨low, high⟩

/-- The value lies between its neighbours on the grid. -/
theorem floor_le : (floor m e unit : ℚ) * 10 ^ unit ≤ 4 * m * quarter e ∧
    4 * m * quarter e < (floor m e unit + 1) * 10 ^ unit := by
  have positive : 0 < step e unit := Nat.mul_pos (Nat.pow_pos (by decide)) (Nat.pow_pos Nat.two_pos)
  have low : floor m e unit * step e unit ≤ quarters e unit (4 * m) := Nat.div_mul_le_self ..
  have high : quarters e unit (4 * m) < (floor m e unit + 1) * step e unit :=
    (Nat.lt_mul_div_succ _ positive).trans_eq (Nat.mul_comm _ _)
  rw [steps_le_quarters] at low
  rw [quarters_lt_steps] at high
  push_cast at low high
  exact ⟨low, high⟩

end Grid

/-! ## Seventeen digits -/

theorem readsAs_of_lt (above : q < (4 * m + 2) * quarter e) (below : (4 * m - (interval m e).below) * quarter e < q) :
    ReadsAs m e q :=
  ⟨below.le, above.le, fun _ => ⟨below, above⟩⟩

/-- In so many steps of the width of the range, a value is left behind. -/
theorem value_lt_widths (double : IsDouble m e) : (4 * m : ℚ) < (2 + (interval m e).below) * 10 ^ 16 := by
  simp only [interval]
  split
  · next least =>
    obtain ⟨rfl, -⟩ := least
    norm_num
  · have : (m : ℚ) < 2 ^ 53 := by exact_mod_cast double.small
    push_cast
    linarith

/-- Something is found on a grid that is fine enough. Otherwise both neighbours of the value would lie outside its
range, and a step would be at least as long as the range is wide. -/
theorem onGrid_ne_none {unit : Int} (double : IsDouble m e) (positive : 0 < m)
    (fine : (10 : ℚ) ^ (unit + 16) ≤ 4 * m * quarter e) : onGrid (interval m e) unit ≠ none := by
  intro missing
  obtain ⟨low, high⟩ := not_isInside_of_onGrid missing
  obtain ⟨floor_low, floor_high⟩ := @floor_le m e unit
  rw [Bool.eq_false_iff, ne_eq, isInside_iff positive] at low high
  have pos := quarter_pos e
  have nonneg : (0 : ℚ) ≤ (interval m e).below := Nat.cast_nonneg _
  have outside : (floor m e unit : ℚ) * 10 ^ unit ≤ (4 * m - (interval m e).below) * quarter e := by
    by_contra inside
    refine low (readsAs_of_lt ?_ (not_le.mp inside))
    linarith
  have beyond : (4 * m + 2) * quarter e ≤ (floor m e unit + 1) * 10 ^ unit := by
    by_contra inside
    have some_ : (0 : ℚ) < (interval m e).below := by
      simp only [interval]
      split <;> norm_num
    refine high (readsAs_of_lt ?_ ?_)
    · push_cast
      exact not_le.mp inside
    · push_cast
      nlinarith
  have wide : (2 + (interval m e).below) * quarter e ≤ (10 : ℚ) ^ unit := by linarith
  rw [zpow_add₀ (by norm_num)] at fine
  norm_num at fine
  have narrow := mul_lt_mul_of_pos_right (value_lt_widths double) pos
  linarith

/-! ## The first digit -/

/-- The position of the first digit as it is guessed from a binary exponent. -/
def guess (bits : Int) : Int := Int.fdiv (bits * 30103) 100000

/-- For no binary exponent of a double is the guess too high. -/
theorem guess_le_all : ∀ k : Nat, k < 2098 →
    Nat.pow 10 (guess (k - 1074 : Int)).toNat * Nat.pow 2 (-(k - 1074 : Int)).toNat ≤
      Nat.pow 2 (k - 1074 : Int).toNat * Nat.pow 10 (-guess (k - 1074 : Int)).toNat := by
  decide +kernel

theorem pow_le_iff {p b : Int} {n : Nat} : (10 : ℚ) ^ p ≤ n * 2 ^ b ↔
    Nat.pow 10 p.toNat * Nat.pow 2 (-b).toNat ≤ n * Nat.pow 2 b.toNat * Nat.pow 10 (-p).toNat := by
  have decimal := zpow_eq_div 10 p
  have binary := zpow_eq_div 2 b
  rw [Nat.cast_ofNat] at decimal binary
  have tens : (0 : ℚ) < ((10 ^ (-p).toNat : Nat) : ℚ) := by exact_mod_cast Nat.pow_pos (by decide)
  have twos : (0 : ℚ) < ((2 ^ (-b).toNat : Nat) : ℚ) := by exact_mod_cast Nat.pow_pos Nat.two_pos
  rw [decimal, binary, ← mul_div_assoc, div_le_div_iff₀ tens twos]
  simp only [Nat.pow_eq]
  exact_mod_cast Iff.rfl

theorem guess_le {bits : Int} (low : -1074 ≤ bits) (high : bits ≤ 1023) : (10 : ℚ) ^ guess bits ≤ 2 ^ bits := by
  have checked := guess_le_all (bits + 1074).toNat (by omega)
  rw [Int.toNat_of_nonneg (by omega), Int.add_sub_cancel] at checked
  have compared := pow_le_iff (p := guess bits) (b := bits) (n := 1)
  rw [Nat.cast_one, one_mul, Nat.one_mul] at compared
  exact compared.mpr checked

/-- The first digit does not stand above the value. -/
theorem leading_le (double : IsDouble m e) (positive : 0 < m) : (10 : ℚ) ^ leading m e ≤ 4 * m * quarter e := by
  have value : 4 * (m : ℚ) * quarter e = m * 2 ^ e := by
    rw [quarter, zpow_sub₀ (by norm_num)]
    norm_num
    ring
  rw [value]
  unfold leading
  extract_lets bits first reaches
  split
  · next reached =>
    exact pow_le_iff.mpr (of_decide_eq_true reached)
  · have small : m.log2 < 53 := (Nat.log2_lt positive.ne').mpr double.small
    have low : (2 : ℚ) ^ bits ≤ m * 2 ^ e := by
      simp only [bits]
      rw [zpow_add₀ (by norm_num), zpow_natCast]
      refine mul_le_mul_of_nonneg_right ?_ (by positivity)
      exact_mod_cast Nat.log2_self_le positive.ne'
    exact (guess_le (by have := double.least; omega) (by have := double.most; omega)).trans low

/-! ## The search -/

/-- The search ends at a grid that has something, if one of those that it may try has. -/
theorem search_found {lead : Int} : ∀ (fuel count : Nat), (∃ n, count ≤ n ∧ n < count + fuel ∧
    onGrid (interval m e) (lead + 1 - n) ≠ none) →
      onGrid (interval m e) (search (interval m e) lead fuel count).2 =
        some (search (interval m e) lead fuel count).1
  | 0, count, ⟨n, above, below, _⟩ => by omega
  | fuel + 1, count, ⟨n, above, below, found⟩ => by
    -- either this grid has something, or the one that has comes later
    rw [search]
    split
    · next hit => exact hit
    · next missed =>
      refine search_found fuel (count + 1) ⟨n, ?_, by omega, found⟩
      rcases Nat.lt_or_eq_of_le above with later | rfl
      · exact later
      · exact absurd missed found

/-- The count and the unit that are found stand for a number that is read as the double. -/
theorem readsAs_search (double : IsDouble m e) (positive : 0 < m) :
    ReadsAs m e ((search (interval m e) (leading m e) 17 1).1 *
      10 ^ (search (interval m e) (leading m e) 17 1).2) := by
  refine (isInside_iff positive).mp (isInside_of_onGrid (search_found 17 1 ⟨17, by decide, by decide, ?_⟩))
  refine onGrid_ne_none double positive ?_
  rw [show leading m e + 1 - (17 : Nat) + 16 = leading m e by omega]
  exact leading_le double positive

end Shortest

end VectorGraph
