import VectorGraph.Proofs.Number.HalfEven
import VectorGraph.Wave.Field

/-!
Wave fields rise and fall with what they are made of.

The coverage of a value depends on how far it lies above the threshold (`coverage_of`), by a step or by a ramp, and
does not fall where that distance grows (`rise_mono`). So the opacity at a place does not fall when the base rises
there, nor rise when the threshold does, and over the falling field no column rises towards the bottom
(`wave_monotone`). All of this is said in exact arithmetic, for any sine.
-/
namespace VectorGraph

section Exact

variable {K : Type} [ExactField K] [LinearOrder K] [IsStrictOrderedRing K]

/-! ## Coverage -/

/-- The coverage at a distance above the threshold: a step for a softness up to a thousandth, a ramp otherwise. -/
def rise (softness distance : K) : K :=
  if softness ≤ 0.001 then if 0 < distance then 1 else 0
  else clip 0 1 ((distance + softness) / (softness + softness))

theorem coverage_of (threshold softness value : K) :
    (Threshold.of threshold softness).coverage value = rise softness (value - threshold) := by
  unfold Threshold.of rise
  split
  · simp only [Threshold.coverage, Nat.cast_one, Nat.cast_zero, sub_pos]
  · simp only [Threshold.coverage, Nat.cast_one, Nat.cast_zero]
    congr 2 <;> ring

theorem rise_mem (softness distance : K) : 0 ≤ rise softness distance ∧ rise softness distance ≤ 1 := by
  unfold rise
  split
  · split
    · exact ⟨zero_le_one, le_rfl⟩
    · exact ⟨le_rfl, zero_le_one⟩
  · exact clip_mem zero_le_one _

/-- Farther above the threshold there is not less coverage. -/
theorem rise_mono (softness : K) : Monotone (rise softness) := by
  intro d d' h
  unfold rise
  split
  · by_cases above : 0 < d
    · rw [if_pos above, if_pos (above.trans_le h)]
    · rw [if_neg above]
      split
      · exact zero_le_one
      · exact le_rfl
  · next soft =>
    have small : (0 : K) < 0.001 := by norm_num
    have positive : 0 < softness + softness := by linarith [not_le.mp soft]
    refine clip_mono zero_le_one ?_
    gcongr

/-! ## Levels -/

namespace Wave

variable (w : Wave K)

/-- The wave with a soft threshold. -/
def thresholded (softness threshold : K) : Wave K := { w with threshold := .of threshold softness }

theorem level_thresholded (softness threshold noise base : K) :
    (w.thresholded softness threshold).level noise base =
      rise softness (base + noise * w.amplitude - threshold) * 255 := by
  rw [level, thresholded, coverage_of, Nat.cast_ofNat]

theorem level_mem (softness threshold noise base : K) :
    0 ≤ (w.thresholded softness threshold).level noise base ∧
      (w.thresholded softness threshold).level noise base ≤ 255 := by
  rw [level_thresholded]
  obtain ⟨low, high⟩ := rise_mem softness (base + noise * w.amplitude - threshold)
  constructor
  · positivity
  · linarith

/-- Where the base is not lower and the threshold not higher, the level is not lower. -/
theorem level_le {softness threshold threshold' noise base base' : K} (higher : base ≤ base')
    (lower : threshold' ≤ threshold) : (w.thresholded softness threshold).level noise base ≤
      (w.thresholded softness threshold').level noise base' := by
  rw [level_thresholded, level_thresholded]
  have rises : rise softness (base + noise * w.amplitude - threshold) ≤
      rise softness (base' + noise * w.amplitude - threshold') := rise_mono softness (by linarith)
  linarith

theorem gradient_anti (n : Nat) : Antitone (gradient n : Nat → K) := by
  intro y y' h
  have rows_ : (y : K) ≤ y' := by exact_mod_cast h
  unfold gradient
  gcongr

/-! ## Rows -/

variable [FloorRing K] (sine : K → K) (pi : K)

/-- The opacity of a wave of `n` columns at a place, in exact arithmetic. -/
def opacity (n : Nat) (base : BaseField K) (x y : Nat) : UInt8 :=
  exactByte (w.level (columnNoise sine pi w.frequency w.square w.oscillators n x) (base.value x y))

/-- The opacity in column `x` and row `y` of some rows. -/
def alphaAt (rows : Array (Array UInt8)) (x y : Nat) : UInt8 := (rows[y]?.getD #[])[x]?.getD 0

variable {n : Nat}

omit [IsStrictOrderedRing K] in
/-- Over a square there is an opacity at every place. -/
theorem exists_rows {base : BaseField K} (width : base.width = n) (height : base.height = n) :
    ∃ rows, w.rows sine pi exactByte n base = .ok rows ∧ rows.size = n ∧ (∀ row ∈ rows, row.size = n) ∧
      ∀ x y, x < n → y < n → alphaAt rows x y = w.opacity sine pi n base x y := by
  unfold rows
  rw [if_pos (by simp [width])]
  refine ⟨_, rfl, ?_, ?_, ?_⟩
  · simp [height]
  · simp only [Array.mem_ofFn]
    rintro row ⟨y, rfl⟩
    rw [Array.size_ofFn]
    split
    · next one => exact width
    · rfl
  · intro x y hx hy
    -- a single column is the first one, as in every other square
    have first : (if n = 1 then 0 else x) = x := by
      split <;> omega
    simp only [alphaAt, Array.getElem?_ofFn]
    rw [dif_pos (by omega)]
    simp only [Option.getD_some, Array.getElem?_ofFn, width, ite_self, dif_pos hx, first, signal]
    rfl

/-- What holds of a wave whose softness and threshold are given, over squares of side `n`. -/
structure IsMonotone (softness : K) (n : Nat) : Prop where
  /-- There is an opacity at every place. It is the level there, rounded, and that is a byte already. -/
  range : ∀ threshold (base : BaseField K), base.width = n → base.height = n →
    ∃ rows, (w.thresholded softness threshold).rows sine pi exactByte n base = .ok rows ∧
      rows.size = n ∧ (∀ row ∈ rows, row.size = n) ∧ ∀ x y, x < n → y < n →
        let level := (w.thresholded softness threshold).level
          (columnNoise sine pi w.frequency w.square w.oscillators n x) (base.value x y)
        ((alphaAt rows x y).toNat : ℤ) = nearestEven level ∧ 0 ≤ nearestEven level ∧ nearestEven level ≤ 255
  /-- Raising the base lowers no opacity. -/
  inBase : ∀ threshold (base base' : BaseField K) rows rows', base.width = n → base.height = n →
    base'.width = n → base'.height = n → (∀ x y, x < n → y < n → base.value x y ≤ base'.value x y) →
    (w.thresholded softness threshold).rows sine pi exactByte n base = .ok rows →
    (w.thresholded softness threshold).rows sine pi exactByte n base' = .ok rows' →
      ∀ x y, x < n → y < n → alphaAt rows x y ≤ alphaAt rows' x y
  /-- Raising the threshold raises no opacity. -/
  inThreshold : ∀ threshold threshold' (base : BaseField K) rows rows', base.width = n → base.height = n →
    threshold ≤ threshold' →
    (w.thresholded softness threshold).rows sine pi exactByte n base = .ok rows →
    (w.thresholded softness threshold').rows sine pi exactByte n base = .ok rows' →
      ∀ x y, x < n → y < n → alphaAt rows' x y ≤ alphaAt rows x y
  /-- Over the falling field no column rises towards the bottom. -/
  falls : ∀ threshold rows,
    (w.thresholded softness threshold).rows sine pi exactByte n (.falling n) = .ok rows →
      ∀ x y y', x < n → y ≤ y' → y' < n → alphaAt rows x y' ≤ alphaAt rows x y

theorem wave_monotone (softness : K) (n : Nat) : w.IsMonotone sine pi softness n := by
  -- every opacity is a rounded level, whatever the threshold and the field are
  have shown : ∀ threshold (base : BaseField K) rows, base.width = n → base.height = n →
      (w.thresholded softness threshold).rows sine pi exactByte n base = .ok rows → ∀ x y, x < n → y < n →
        alphaAt rows x y = (w.thresholded softness threshold).opacity sine pi n base x y := by
    intro threshold base rows width height drawn
    obtain ⟨rows', drawn', -, -, places⟩ := exists_rows (w.thresholded softness threshold) sine pi width height
    obtain rfl := Except.ok.inj (drawn.symm.trans drawn')
    exact places
  constructor
  · intro threshold base width height
    obtain ⟨rows, drawn, size, sizes, places⟩ :=
      exists_rows (w.thresholded softness threshold) sine pi width height
    refine ⟨rows, drawn, size, sizes, fun x y hx hy => ?_⟩
    obtain ⟨low, high⟩ := level_mem w softness threshold
      (columnNoise sine pi w.frequency w.square w.oscillators n x) (base.value x y)
    rw [places x y hx hy]
    exact ⟨toNat_exactByte low high, nearestEven_mem (by simpa using low) (by simpa using high)⟩
  · intro threshold base base' rows rows' width height width' height' higher drawn drawn' x y hx hy
    rw [shown _ _ _ width height drawn x y hx hy, shown _ _ _ width' height' drawn' x y hx hy]
    exact exactByte_le (level_le w (higher x y hx hy) le_rfl)
  · intro threshold threshold' base rows rows' width height higher drawn drawn' x y hx hy
    rw [shown _ _ _ width height drawn x y hx hy, shown _ _ _ width height drawn' x y hx hy]
    exact exactByte_le (level_le w le_rfl higher)
  · intro threshold rows drawn x y y' hx h hy
    rw [shown _ _ _ rfl rfl drawn x y hx (h.trans_lt hy), shown _ _ _ rfl rfl drawn x y' hx hy]
    exact exactByte_le (level_le w (gradient_anti n h) le_rfl)

/-- An oscillator whose sine is the identity, over the rational numbers. -/
theorem wave_monotone_rational : IsStrictOrderedRing ℚ ∧
    (⟨[⟨1, 0.75⟩], 50, 0.6, .of 0.5 0.1, false⟩ : Wave ℚ).IsMonotone id 3.14 0.1 4 :=
  ⟨inferInstance, wave_monotone _ id 3.14 0.1 4⟩

/-- Without oscillators a hard threshold cuts the falling field in the middle. -/
example : ((⟨[], 50, 0.6, .of 0.5 0, false⟩ : Wave ℚ).rows id 0 exactByte 4 (.falling 4)).toOption =
    some #[#[255, 255, 255, 255], #[255, 255, 255, 255], #[0, 0, 0, 0], #[0, 0, 0, 0]] := by
  decide +kernel

end Wave

end Exact

end VectorGraph
