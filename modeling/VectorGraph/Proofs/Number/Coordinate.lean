import VectorGraph.Number.Text
import VectorGraph.Proofs.Number.Reading

/-!
The texts of coordinates.

The text of a coordinate is made of the number of ten-thousandths that its value rounds to, and of nothing else
(`coordinateText_eq`): whole numbers, which are written by a rule of their own, come out as they would by rounding. The
text is a sign where it is needed, digits without a leading zero and places without a zero at the end
(`compact_unitsDecimal`), and reading it gives the number of ten-thousandths back (`signedValue_unitsText`). So texts
are equal where the rounded numbers are, and as no double is nearer to the number in a text than the one it is read as,
writing that one again changes nothing.
-/
namespace VectorGraph

open Decimal (count)

/-! ## Digits -/

theorem exists_repr_eq_cons {n : Nat} (pos : 0 < n) : ∃ c rest, n.repr.toList = c :: rest ∧ c ≠ '0' := by
  induction n using Nat.strongRecOn with
  | ind n ih =>
    rw [Nat.toList_repr]
    rcases Nat.lt_or_ge n 10 with one | more
    · exact ⟨n.digitChar, [], Nat.toDigits_of_lt_base one, fun zero => pos.ne' (Nat.digitChar_eq_zero.mp zero)⟩
    · obtain ⟨c, rest, front, nonzero⟩ := ih (n / 10) (by omega) (by omega)
      rw [Nat.toList_repr] at front
      exact ⟨c, _, by rw [Nat.toDigits_of_base_le (by decide) more, front]; rfl, nonzero⟩

theorem length_padded {width n : Nat} (pos : 0 < width) (small : n < 10 ^ width) :
    (padded width n).toList.length = width := by
  have short : n.repr.length ≤ width := (Nat.length_repr_le_iff pos).mpr small
  rw [padded, String.toList_append, String.toList_ofList, List.length_append, List.length_replicate,
    String.length_toList]
  omega

theorem getLast?_dropZeros (digits : List Char) : (Shortest.dropZeros digits).getLast? ≠ some '0' := by
  intro zero
  rw [Shortest.dropZeros, List.getLast?_reverse] at zero
  have other := List.head?_dropWhile_not (· == '0') digits.reverse
  rw [zero] at other
  exact absurd other (by decide)

/-- A decimal without an exponent: digits without a leading zero, and at most four places, the last of which is not
zero. -/
structure Decimal.Compact (d : Decimal) : Prop where
  isDigit_whole : ∀ c ∈ d.whole, c.isDigit
  leading : d.whole = ['0'] ∨ ∃ c rest, d.whole = c :: rest ∧ c ≠ '0'
  isDigit_places : ∀ c ∈ d.places, c.isDigit
  short : d.places.length ≤ 4
  trimmed : d.places.getLast? ≠ some '0'
  power : d.power = none

/-! ## Ten-thousandths -/

/-- A number of ten-thousandths as a decimal. -/
def unitsDecimal (units : Nat) : Decimal where
  whole := (units / 10000).repr.toList
  places := Shortest.dropZeros (padded 4 (units % 10000)).toList
  power := none

theorem whole_unitsDecimal (units : Nat) : (unitsDecimal units).whole = (units / 10000).repr.toList := by
  rw [unitsDecimal]

theorem places_unitsDecimal (units : Nat) :
    (unitsDecimal units).places = Shortest.dropZeros (padded 4 (units % 10000)).toList := by
  rw [unitsDecimal]

theorem power_unitsDecimal (units : Nat) : (unitsDecimal units).power = none := by
  rw [unitsDecimal]

/-- A point stands before places only. -/
theorem toList_pointed (whole : String) (places : List Char) :
    (whole ++ if places.isEmpty then "" else "." ++ String.ofList places).toList =
      Decimal.text ⟨whole.toList, places, none⟩ := by
  cases places <;> simp [Decimal.text, Decimal.front, Decimal.tail]

theorem toList_trimmedDigits (units : Nat) : (trimmedDigits units).toList = (unitsDecimal units).text := by
  rw [trimmedDigits, toList_pointed, unitsDecimal]

theorem exists_padded_eq (units : Nat) : ∃ n, (padded 4 (units % 10000)).toList =
    (unitsDecimal units).places ++ List.replicate n '0' ∧ (unitsDecimal units).places.length + n = 4 := by
  obtain ⟨n, parts⟩ := Shortest.exists_dropZeros (padded 4 (units % 10000)).toList
  have small : units % 10000 < 10 ^ 4 := by omega
  have length := length_padded (by decide) small
  rw [parts, List.length_append, List.length_replicate] at length
  rw [places_unitsDecimal]
  exact ⟨n, parts, length⟩

theorem compact_unitsDecimal (units : Nat) : (unitsDecimal units).Compact where
  isDigit_whole := by
    rw [whole_unitsDecimal]
    exact fun c hc => isDigit_of_mem_repr hc
  leading := by
    rw [whole_unitsDecimal]
    rcases Nat.eq_zero_or_pos (units / 10000) with zero | pos
    · exact .inl (by rw [zero]; rfl)
    · exact .inr (exists_repr_eq_cons pos)
  isDigit_places := by
    obtain ⟨n, parts, -⟩ := exists_padded_eq units
    exact fun c hc => isDigit_padded (parts ▸ List.mem_append_left _ hc)
  short := by
    obtain ⟨n, -, length⟩ := exists_padded_eq units
    omega
  trimmed := by
    rw [places_unitsDecimal]
    exact getLast?_dropZeros _
  power := power_unitsDecimal units

theorem value_unitsDecimal (units : Nat) : (unitsDecimal units).value = units / 10000 := by
  obtain ⟨n, parts, length⟩ := exists_padded_eq units
  have rest := congrArg count parts
  rw [count_padded, count_append_zeros] at rest
  have power : (10 : ℚ) ^ (unitsDecimal units).places.length * 10 ^ n = 10000 := by
    rw [← pow_add, length]
    norm_num
  have all : (units : ℚ) = 10000 * (units / 10000 : Nat) + (units % 10000 : Nat) := by
    exact_mod_cast (Nat.div_add_mod units 10000).symm
  rw [Decimal.value, count_append, whole_unitsDecimal, count_repr, power_unitsDecimal, Option.getD_none, zero_sub,
    zpow_neg, zpow_natCast, all, rest, ← div_eq_mul_inv, div_eq_div_iff (by positivity) (by norm_num), ← power]
  push_cast
  ring

/-! ## Signs -/

/-- The text of a number of ten-thousandths. -/
def unitsText (n : ℤ) : String := signText (decide (n < 0)) ++ trimmedDigits n.natAbs

/-- The number that a text stands for, a sign being in front of it. -/
def signedValue : List Char → ℚ
  | '-' :: rest => -decimalValue rest
  | cs => decimalValue cs

theorem toList_unitsText (n : ℤ) :
    (unitsText n).toList = (signText (decide (n < 0))).toList ++ (unitsDecimal n.natAbs).text := by
  rw [unitsText, String.toList_append, toList_trimmedDigits]

theorem Decimal.Compact.whole_ne_nil {d : Decimal} (compact : d.Compact) : d.whole ≠ [] := by
  rcases compact.leading with zero | ⟨c, rest, whole, -⟩
  · exact zero ▸ List.cons_ne_nil _ _
  · exact whole ▸ List.cons_ne_nil _ _

theorem signedValue_sign {d : Decimal} (compact : d.Compact) (negative : Bool) :
    signedValue ((signText negative).toList ++ d.text) = if negative then -d.value else d.value := by
  have value := Decimal.decimalValue_text compact.isDigit_whole compact.isDigit_places
  cases negative with
  | true => exact congrArg (-·) value
  | false =>
    obtain ⟨c, rest, text, digit⟩ := Decimal.text_eq_cons compact.isDigit_whole compact.whole_ne_nil
    have plain : signedValue d.text = decimalValue d.text := by
      rw [text]
      unfold signedValue
      split
      · next sign => exact absurd (List.cons.inj sign).1 (ne_of_isDigit digit rfl)
      · rfl
    exact plain.trans value

theorem signedValue_unitsText (n : ℤ) : signedValue (unitsText n).toList = n / 10000 := by
  rw [toList_unitsText, signedValue_sign (compact_unitsDecimal _), value_unitsDecimal]
  have size : ((n.natAbs : ℕ) : ℚ) = |(n : ℚ)| := by rw [← Int.cast_abs, Int.abs_eq_natAbs, Int.cast_natCast]
  rw [size]
  by_cases below : n < 0
  · have negative : (n : ℚ) < 0 := by exact_mod_cast below
    rw [if_pos (by simpa using below), abs_of_neg negative, neg_div, neg_neg]
  · have nonneg : (0 : ℚ) ≤ n := by exact_mod_cast not_lt.mp below
    rw [if_neg (by simpa using below), abs_of_nonneg nonneg]

theorem unitsText_injective : Function.Injective unitsText := by
  intro n n' same
  have values := congrArg (fun s => signedValue s.toList) same
  simp only [signedValue_unitsText] at values
  rw [div_left_inj' (by norm_num)] at values
  exact_mod_cast values

/-- Zero has no sign. -/
theorem unitsText_ne (n : ℤ) : unitsText n ≠ "-0" := by
  intro zero
  have value := signedValue_unitsText n
  have read : signedValue "-0".toList = 0 := by
    have digits : decimalValue ['0'] = 0 := by simp [decimalValue, count, Nat.ofDigitChars]
    exact (congrArg (-·) digits).trans neg_zero
  rw [zero, read, eq_comm, div_eq_zero_iff] at value
  obtain rfl : n = 0 := by exact_mod_cast value.resolve_right (by norm_num)
  exact absurd zero (by decide)

/-! ## Coordinates -/

/-- A whole number of units is written without a point. -/
theorem trimmedDigits_mul (n : Nat) : trimmedDigits (n * 10000) = n.repr := by
  have nothing : Shortest.dropZeros (padded 4 0).toList = [] := by decide
  rw [trimmedDigits, Nat.mul_div_cancel n (by decide), Nat.mul_mod_left, nothing]
  exact String.append_empty

theorem magnitude_of_isWhole {b : Binary} (h : b.isWhole = true) : b.magnitude = b.floorAbs := by
  unfold Binary.isWhole at h
  unfold Binary.floorAbs Binary.magnitude
  cases exponent : b.exponent with
  | ofNat e =>
    rw [Int.ofNat_eq_natCast, zpow_natCast]
    dsimp only
    rw [Nat.pow_eq, Nat.cast_mul, Nat.cast_pow, Nat.cast_ofNat]
  | negSucc e =>
    rw [exponent] at h
    have parts := Nat.div_add_mod b.mantissa (Nat.pow 2 (e + 1))
    rw [beq_iff_eq.mp h, Nat.add_zero, Nat.pow_eq] at parts
    rw [zpow_negSucc, mul_inv_eq_iff_eq_mul₀ (by positivity), mul_comm]
    exact_mod_cast parts.symm

/-- Whole numbers are written as others are. -/
theorem coordinate_eq (b : Binary) :
    b.coordinate = signText (b.negative && b.scaled 10000 != 0) ++ trimmedDigits (b.scaled 10000) := by
  unfold Binary.coordinate
  split
  · next whole =>
    have scaled : b.scaled 10000 = b.floorAbs * 10000 := by
      have rounded := nearestEven_scaled b 10000
      have value : b.magnitude * (10000 : Nat) = ((b.floorAbs * 10000 : ℤ) : ℚ) := by
        rw [magnitude_of_isWhole whole]
        push_cast
        rfl
      rw [value, nearestEven_intCast] at rounded
      exact_mod_cast rounded.symm
    have nonzero : (b.floorAbs * 10000 != 0) = (b.floorAbs != 0) := by
      rw [Bool.eq_iff_iff, bne_iff_ne, bne_iff_ne]
      omega
    rw [scaled, trimmedDigits_mul, nonzero]
  · rfl

/-- The text of a finite double is that of the number of ten-thousandths that its value rounds to. -/
theorem coordinateText_eq {x : Float} {b : Binary} (view : FloatView.of x = .finite b) :
    coordinateText x = unitsText (nearestEven (b.value * 10000)) := by
  have rounded := nearestEven_scaled b 10000
  rw [Nat.cast_ofNat] at rounded
  rw [coordinateText, view]
  dsimp only
  rw [coordinate_eq, unitsText]
  cases sign : b.negative with
  | false =>
    have above : decide (((b.scaled 10000 : ℕ) : ℤ) < 0) = false := decide_eq_false (by omega)
    rw [Binary.value_of_positive sign, rounded, above, Int.natAbs_natCast, Bool.false_and]
  | true =>
    have below : decide (-((b.scaled 10000 : ℕ) : ℤ) < 0) = (b.scaled 10000 != 0) := by
      rw [Bool.eq_iff_iff, decide_eq_true_iff, bne_iff_ne]
      omega
    rw [Binary.value_of_negative sign, neg_mul, nearestEven_neg, rounded, below, Int.natAbs_neg, Int.natAbs_natCast,
      Bool.true_and]

/-- What is true of the text of a finite double. -/
structure IsCanonical (x : Float) (b : Binary) : Prop where
  /-- A sign at most, digits without a leading zero, and up to four places without a zero at the end. -/
  form : ∃ (negative : Bool) (d : Decimal), d.Compact ∧
    (coordinateText x).toList = (signText negative).toList ++ d.text
  unsigned_zero : coordinateText x ≠ "-0"
  /-- The value is rounded to ten-thousandths, a half to the even number of them. -/
  value : signedValue (coordinateText x).toList = nearestEven (b.value * 10000) / 10000
  whole : ∀ n : ℤ, b.value = n → signedValue (coordinateText x).toList = n
  /-- Values have the same text if and only if they round to the same number. -/
  same : ∀ y b', FloatView.of y = .finite b' →
    (coordinateText x = coordinateText y ↔ nearestEven (b.value * 10000) = nearestEven (b'.value * 10000))
  /-- The number in the text, read as a double from whatever fraction, has the same text. -/
  again : ∀ (negative : Bool) (num den : Nat), 0 < den →
    (signedValue (coordinateText x).toList = if negative then -(num / den : ℚ) else num / den) →
    ∃ y, nearestDouble negative num den = some y ∧ coordinateText y = coordinateText x
  ordered : ∀ y b', FloatView.of y = .finite b' → x ≤ y →
    signedValue (coordinateText x).toList ≤ signedValue (coordinateText y).toList

variable {x : Float} {b : Binary}

/-- A value that is at least as near to the number in the text rounds to the same number. -/
theorem nearestEven_of_near {v w : ℚ}
    (near : |w - nearestEven (v * 10000) / 10000| ≤ |v - nearestEven (v * 10000) / 10000|) :
    nearestEven (w * 10000) = nearestEven (v * 10000) := by
  have rounds := roundsTo_nearestEven (v * 10000)
  generalize nearestEven (v * 10000) = n at near rounds
  have scaled (u : ℚ) : |u * 10000 - n| = |u - n / 10000| * 10000 := by
    rw [← abs_of_pos (by norm_num : (0 : ℚ) < 10000), ← abs_mul, sub_mul, abs_of_pos (by norm_num : (0 : ℚ) < 10000),
      div_mul_cancel₀ _ (by norm_num)]
  have le : |w * 10000 - n| ≤ |v * 10000 - n| := by
    rw [scaled, scaled]
    linarith
  exact nearestEven_eq ⟨le.trans rounds.near, fun tie => rounds.even (le_antisymm rounds.near (tie ▸ le))⟩

/-- The number in the text of a coordinate is read as a double that has this text. -/
theorem coordinateText_again (view : FloatView.of x = .finite b) {negative : Bool} {num den : Nat} (pos : 0 < den)
    (read : signedValue (coordinateText x).toList = if negative then -(num / den : ℚ) else num / den) :
    ∃ y, nearestDouble negative num den = some y ∧ coordinateText y = coordinateText x := by
  rw [coordinateText_eq view, signedValue_unitsText] at read
  have near : |b.value - nearestEven (b.value * 10000) / 10000| ≤ 1 / 2 := by
    have rounded := (roundsTo_nearestEven (b.value * 10000)).near
    rw [abs_le] at rounded ⊢
    constructor <;> linarith
  obtain ⟨y, b', found, view', nearer⟩ := exists_nearestDouble pos (FloatView.isDouble_of view) read near
  refine ⟨y, found, ?_⟩
  rw [coordinateText_eq view', coordinateText_eq view, nearestEven_of_near nearer]

theorem coordinateText_canonical (view : FloatView.of x = .finite b) : IsCanonical x b := by
  have text := coordinateText_eq view
  have value : signedValue (coordinateText x).toList = nearestEven (b.value * 10000) / 10000 := by
    rw [text, signedValue_unitsText]
  refine ⟨?_, text ▸ unitsText_ne _, value, fun n given => ?_, fun y b' view' => ?_,
    fun negative num den pos read => coordinateText_again view pos read, fun y b' view' le => ?_⟩
  · exact ⟨_, _, compact_unitsDecimal _, text ▸ toList_unitsText _⟩
  · have units : b.value * 10000 = ((n * 10000 : ℤ) : ℚ) := by
      rw [given]
      push_cast
      rfl
    rw [value, units, nearestEven_intCast, Int.cast_mul, Int.cast_ofNat, mul_div_cancel_right₀ _ (by norm_num)]
  · rw [text, coordinateText_eq view', unitsText_injective.eq_iff]
  · have order : nearestEven (b.value * 10000) ≤ nearestEven (b'.value * 10000) := by
      refine nearestEven_mono ?_
      have values := (FloatView.le_iff_value_le view view').mp le
      linarith
    have order_ : (nearestEven (b.value * 10000) : ℚ) ≤ nearestEven (b'.value * 10000) := by exact_mod_cast order
    rw [value, coordinateText_eq view', signedValue_unitsText]
    gcongr

theorem coordinateText_canonical_fraction : FloatView.of (-12.34567) = .finite ⟨true, 6949994351454889, -49⟩ ∧
    IsCanonical (-12.34567) ⟨true, 6949994351454889, -49⟩ := by
  have view : FloatView.of (-12.34567) = .finite ⟨true, 6949994351454889, -49⟩ := by decide +kernel
  exact ⟨view, coordinateText_canonical view⟩

/-- What is rounded to zero from below has no sign. -/
example : coordinateText (-0.00001) = "0" := by decide +kernel

end VectorGraph
