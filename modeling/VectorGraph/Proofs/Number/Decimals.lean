import VectorGraph.Json.Canonical
import VectorGraph.Proofs.Number.Plain
import VectorGraph.Proofs.Number.Shortest
import VectorGraph.Proofs.Text.Reach

/-!
The texts of doubles tell them apart.

A decimal is a whole part, digits after a point and an exponent, and reading its text gives its value
(`decimalValue_text`). Every layout of digits is the text of such a decimal, whose value is that of the digits. The
shortest digits of a double are a number that is read as this double, so the text determines it; the sign stands in
front and no layout begins with one. Hence `realText_injective`: no two doubles have one text, not even zero and
negative zero. That a double is never written like an integer is seen from its point, its exponent or its letters.
-/
namespace VectorGraph

/-- A decimal as it is written: digits before and after a point, and an exponent if it has one. -/
structure Decimal where
  whole : List Char
  places : List Char
  power : Option Int

namespace Decimal

/-- The number that digits stand for. -/
def count (digits : List Char) : Nat := Nat.ofDigitChars 10 digits 0

/-- The part before the exponent. -/
def front (d : Decimal) : List Char := d.whole ++ if d.places.isEmpty then [] else '.' :: d.places

/-- The exponent with its mark, if there is one. -/
def tail (d : Decimal) : List Char :=
  match d.power with
  | none => []
  | some power => 'e' :: (exponentText power).toList

def text (d : Decimal) : List Char := d.front ++ d.tail

def value (d : Decimal) : ℚ := count (d.whole ++ d.places) * 10 ^ (d.power.getD 0 - d.places.length)

/-- The parts are digits, and no integer is written like this. -/
structure Proper (d : Decimal) : Prop where
  whole_ne_nil : d.whole ≠ []
  isDigit_whole : ∀ c ∈ d.whole, c.isDigit
  isDigit_places : ∀ c ∈ d.places, c.isDigit
  marked : d.places ≠ [] ∨ d.power.isSome

end Decimal

open Decimal (count)

/-! ## Digits -/

theorem ne_of_isDigit {c d : Char} (digit : c.isDigit = true) (other : d.isDigit = false) : c ≠ d := by
  rintro rfl
  rw [digit] at other
  cases other

theorem count_append (a b : List Char) : count (a ++ b) = 10 ^ b.length * count a + count b := by
  rw [count, Nat.ofDigitChars_append, Nat.ofDigitChars_eq_ofDigitChars_zero, count, count]

theorem count_zeros (n : Nat) : count (List.replicate n '0') = 0 := by
  rw [count, Nat.ofDigitChars_replicate_zero, Nat.mul_zero]

theorem count_zeros_append (n : Nat) (digits : List Char) : count (List.replicate n '0' ++ digits) = count digits := by
  rw [count_append, count_zeros, Nat.mul_zero, Nat.zero_add]

theorem count_append_zeros (n : Nat) (digits : List Char) :
    count (digits ++ List.replicate n '0') = count digits * 10 ^ n := by
  rw [count_append, count_zeros, List.length_replicate, Nat.add_zero, Nat.mul_comm]

theorem count_repr (n : Nat) : count n.repr.toList = n := by
  rw [Nat.toList_repr, count, Nat.ofDigitChars_ten_toDigits]

theorem count_padded (width n : Nat) : count (padded width n).toList = n := by
  rw [padded, String.toList_append, String.toList_ofList, count_zeros_append, count_repr]

theorem isDigit_padded {width n : Nat} {c : Char} (h : c ∈ (padded width n).toList) : c.isDigit = true := by
  rw [padded, String.toList_append, String.toList_ofList, List.mem_append] at h
  rcases h with zero | digit
  · obtain rfl := (List.mem_replicate.mp zero).2
    rfl
  · exact isDigit_of_mem_repr digit

/-! ## Reading -/

/-- The exponent that a sign and digits stand for. -/
def exponentValue : List Char → Int
  | '-' :: digits => -(count digits : Int)
  | '+' :: digits => count digits
  | _ => 0

/-- The number that a text without a sign stands for, its exponent being all that follows an `e` and its places all
that follow a point before. -/
def decimalValue (cs : List Char) : ℚ :=
  let front := cs.takeWhile (· != 'e')
  let whole := front.takeWhile (· != '.')
  let places := (front.dropWhile (· != '.')).drop 1
  let power := exponentValue ((cs.dropWhile (· != 'e')).drop 1)
  count (whole ++ places) * 10 ^ (power - places.length)

theorem exponentValue_exponentText (e : Int) : exponentValue (exponentText e).toList = e := by
  rw [exponentText, String.toList_append]
  split
  · show -(count (padded 2 e.natAbs).toList : Int) = e
    rw [count_padded]
    omega
  · show (count (padded 2 e.natAbs).toList : Int) = e
    rw [count_padded]
    omega

namespace Decimal

variable {d : Decimal}

section Digits

variable (whole : ∀ c ∈ d.whole, c.isDigit) (places : ∀ c ∈ d.places, c.isDigit)

include whole in
/-- The part before the exponent is split at its point. -/
theorem split_front :
    d.front.takeWhile (· != '.') = d.whole ∧ (d.front.dropWhile (· != '.')).drop 1 = d.places := by
  have inside : ∀ c ∈ d.whole, (c != '.') = true := fun c hc =>
    bne_iff_ne.mpr (ne_of_isDigit (whole c hc) rfl)
  unfold front
  split
  · next none_ =>
    rw [(cut_append inside ends_nil).1, (cut_append inside ends_nil).2, List.isEmpty_iff.mp none_]
    exact ⟨rfl, rfl⟩
  · rw [(cut_append inside (ends_cons rfl _)).1, (cut_append inside (ends_cons rfl _)).2]
    exact ⟨rfl, rfl⟩

include whole in
/-- A text that is written as a decimal begins with a digit. -/
theorem text_eq_cons (given : d.whole ≠ []) : ∃ c rest, d.text = c :: rest ∧ c.isDigit = true := by
  obtain ⟨c, rest, front⟩ := List.exists_cons_of_ne_nil given
  have digit : c.isDigit = true := whole c (front ▸ List.mem_cons_self)
  rw [text, Decimal.front, front]
  exact ⟨c, _, rfl, digit⟩

include whole places

/-- The exponent is split off at its mark. -/
theorem split_text :
    d.text.takeWhile (· != 'e') = d.front ∧ d.text.dropWhile (· != 'e') = d.tail := by
  have digit : ∀ {c : Char}, c.isDigit = true → (c != 'e') = true := fun digit =>
    bne_iff_ne.mpr (ne_of_isDigit digit rfl)
  have inside : ∀ c ∈ d.front, (c != 'e') = true := fun c hc => by
    rcases List.mem_append.mp hc with hc | hc
    · exact digit (whole c hc)
    · split at hc
      · cases hc
      · rcases List.mem_cons.mp hc with rfl | hc
        · rfl
        · exact digit (places c hc)
  have ends : Ends (· != 'e') d.tail := by
    unfold tail
    split
    · exact ends_nil
    · exact ends_cons rfl _
  exact cut_append inside ends

theorem decimalValue_text : decimalValue d.text = d.value := by
  have power : exponentValue (d.tail.drop 1) = d.power.getD 0 := by
    unfold tail
    cases d.power with
    | none => rfl
    | some power => exact exponentValue_exponentText power
  unfold decimalValue
  dsimp only
  rw [(split_text whole places).1, (split_text whole places).2, (split_front whole).1, (split_front whole).2, power,
    value]

end Digits

theorem Proper.mem_text (proper : d.Proper) {c : Char} (h : c ∈ d.text) :
    c.isDigit = true ∨ c ∈ ['.', 'e', '+', '-'] := by
  rw [text, front, tail, List.mem_append, List.mem_append] at h
  rcases h with (h | h) | h
  · exact .inl (proper.isDigit_whole c h)
  · split at h
    · cases h
    · rcases List.mem_cons.mp h with rfl | h
      · exact .inr (by decide)
      · exact .inl (proper.isDigit_places c h)
  · split at h
    · cases h
    · next p =>
      rcases List.mem_cons.mp h with rfl | h
      · exact .inr (by decide)
      · rw [exponentText, String.toList_append, List.mem_append] at h
        rcases h with sign | digit
        · refine .inr ?_
          split at sign <;> revert sign <;> simp +contextual
        · exact .inl (isDigit_padded digit)

/-- A decimal has a point or an exponent. -/
theorem Proper.marked_text (proper : d.Proper) : '.' ∈ d.text ∨ 'e' ∈ d.text := by
  rcases proper.marked with places | power
  · refine .inl (List.mem_append_left _ (List.mem_append_right _ ?_))
    rw [if_neg (by simpa using places)]
    exact List.mem_cons_self
  · obtain ⟨p, hp⟩ := Option.isSome_iff_exists.mp power
    refine .inr (List.mem_append_right _ ?_)
    rw [tail, hp]
    exact List.mem_cons_self

end Decimal

/-! ## Layouts -/

namespace Digits

/-- The decimal that digits are laid out as. -/
def decimal (d : Digits) : Decimal :=
  if -3 ≤ d.point ∧ d.point ≤ 16 then
    if d.point ≤ 0 then ⟨['0'], List.replicate (-d.point).toNat '0' ++ d.digits, none⟩
    else if (d.digits.length : Int) ≤ d.point then
      ⟨d.digits ++ List.replicate (d.point - d.digits.length).toNat '0', ['0'], none⟩
    else ⟨d.digits.take d.point.toNat, d.digits.drop d.point.toNat, none⟩
  else ⟨d.digits.take 1, d.digits.drop 1, some (d.point - 1)⟩

variable {d : Digits}

theorem toList_layout (given : d.digits ≠ []) : d.layout.toList = d.decimal.text := by
  unfold layout decimal
  dsimp only
  split
  · split
    · simp [Decimal.text, Decimal.front, Decimal.tail, given]
    · split
      · simp [Decimal.text, Decimal.front, Decimal.tail]
      · next inside =>
        have some_ : ¬ d.digits.length ≤ d.point.toNat := by omega
        simp [Decimal.text, Decimal.front, Decimal.tail, some_]
  · by_cases one : d.digits.tail = []
    · simp [Decimal.text, Decimal.front, Decimal.tail, one]
    · simp [Decimal.text, Decimal.front, Decimal.tail, one]

theorem proper_decimal (given : d.digits ≠ []) (digits : ∀ c ∈ d.digits, c.isDigit) : d.decimal.Proper := by
  have zeros : ∀ n, ∀ c ∈ List.replicate n '0', c.isDigit := fun n c hc => by
    obtain rfl := (List.mem_replicate.mp hc).2
    rfl
  have all_append : ∀ {a b : List Char}, (∀ c ∈ a, c.isDigit) → (∀ c ∈ b, c.isDigit) → ∀ c ∈ a ++ b, c.isDigit :=
    fun ha hb c hc => (List.mem_append.mp hc).elim (ha c) (hb c)
  have length := List.length_pos_of_ne_nil given
  unfold decimal
  split
  · split
    · exact ⟨List.cons_ne_nil _ _, zeros 1, all_append (zeros _) digits,
        .inl (List.append_ne_nil_of_right_ne_nil _ given)⟩
    · split
      · exact ⟨List.append_ne_nil_of_left_ne_nil given _, all_append digits (zeros _), zeros 1,
          .inl (List.cons_ne_nil _ _)⟩
      · refine ⟨?_, fun c hc => digits c (List.mem_of_mem_take hc), fun c hc => digits c (List.mem_of_mem_drop hc),
          .inl ?_⟩
        · rw [← List.length_pos_iff, List.length_take]
          omega
        · rw [← List.length_pos_iff, List.length_drop]
          omega
  · refine ⟨?_, fun c hc => digits c (List.mem_of_mem_take hc), fun c hc => digits c (List.mem_of_mem_drop hc),
      .inr rfl⟩
    rw [← List.length_pos_iff, List.length_take]
    omega

/-- Every layout has the value of its digits. -/
theorem value_decimal (given : d.digits ≠ []) :
    d.decimal.value = count d.digits * 10 ^ (d.point - d.digits.length) := by
  have length := List.length_pos_of_ne_nil given
  unfold decimal
  split
  · split
    · have zero : count (['0'] ++ (List.replicate (-d.point).toNat '0' ++ d.digits)) = count d.digits := by
        rw [show ['0'] = List.replicate 1 '0' from rfl, count_zeros_append, count_zeros_append]
      rw [Decimal.value, zero, Option.getD_none, List.length_append, List.length_replicate]
      congr 2
      omega
    · split
      · rw [Decimal.value, List.append_assoc, show ['0'] = List.replicate 1 '0' from rfl,
          List.replicate_append_replicate, count_append_zeros, Option.getD_none, List.length_replicate]
        push_cast
        rw [mul_assoc, ← zpow_natCast, ← zpow_add₀ (by norm_num)]
        congr 2
        omega
      · rw [Decimal.value, List.take_append_drop, Option.getD_none, List.length_drop]
        congr 2
        omega
  · rw [Decimal.value, List.take_append_drop, Option.getD_some, List.length_drop]
    congr 2
    omega

end Digits

/-! ## Shortest digits -/

namespace Shortest

/-- Zeros at the end are all that is dropped. -/
theorem exists_dropZeros (digits : List Char) : ∃ n, digits = dropZeros digits ++ List.replicate n '0' := by
  refine ⟨(digits.reverse.takeWhile (· == '0')).length, ?_⟩
  have zeros : digits.reverse.takeWhile (· == '0') =
      List.replicate (digits.reverse.takeWhile (· == '0')).length '0' :=
    List.eq_replicate_length.mpr fun c hc => beq_iff_eq.mp (List.mem_takeWhile_imp (p := (· == '0')) hc)
  have parts := congrArg List.reverse (List.takeWhile_append_dropWhile (p := (· == '0')) (l := digits.reverse))
  rw [zeros, List.reverse_append, List.reverse_reverse, List.reverse_replicate] at parts
  exact parts.symm

variable {m : Nat} {e : Int}

theorem isDigit_digits : ∀ c ∈ (digits m e).digits, c.isDigit := by
  intro c hc
  unfold digits at hc
  split at hc
  · obtain rfl := List.mem_singleton.mp hc
    rfl
  · dsimp only at hc
    obtain ⟨n, parts⟩ := exists_dropZeros (search (interval m e) (leading m e) 17 1).1.repr.toList
    refine isDigit_of_mem_repr (n := (search (interval m e) (leading m e) 17 1).1) ?_
    rw [parts]
    exact List.mem_append_left _ hc

/-- The number that the digits stand for is read as the double. -/
theorem readsAs_digits (double : IsDouble m e) :
    ReadsAs m e (count (digits m e).digits * 10 ^ ((digits m e).point - (digits m e).digits.length)) := by
  unfold digits
  split
  · next zero =>
    have none_ : count ['0'] = 0 := rfl
    rw [none_, zero]
    have pos := quarter_pos e
    refine ⟨?_, ?_, nofun⟩
    · have below : ((interval 0 e).below : ℚ) = 2 := rfl
      rw [below]
      push_cast
      linarith
    · push_cast
      linarith
  · next given =>
    have reads := readsAs_search double (Nat.pos_of_ne_zero given)
    dsimp only
    set found := search (interval m e) (leading m e) 17 1 with hfound
    clear_value found
    -- The zeros at the end are dropped from the digits and counted by the exponent.
    obtain ⟨n, parts⟩ := exists_dropZeros found.1.repr.toList
    have value : (found.1 : ℚ) = count (dropZeros found.1.repr.toList) * 10 ^ (n : Int) := by
      rw [zpow_natCast]
      exact_mod_cast (count_repr found.1).symm.trans ((congrArg count parts).trans (count_append_zeros _ _))
    have size : found.1.repr.toList.length = (dropZeros found.1.repr.toList).length + n := by
      rw [← List.length_replicate (n := n) (a := '0'), ← List.length_append, ← parts]
    rw [value, mul_assoc, ← zpow_add₀ (by norm_num)] at reads
    convert reads using 3
    omega

theorem digits_ne_nil (double : IsDouble m e) : (digits m e).digits ≠ [] := by
  intro none_
  by_cases zero : m = 0
  · simp [digits, zero] at none_
  · have reads := (readsAs_digits double).lower
    have pos := quarter_pos e
    have below := below_le m e
    have some_ : (1 : ℚ) ≤ m := by exact_mod_cast Nat.one_le_iff_ne_zero.mpr zero
    rw [none_, show count [] = 0 from rfl] at reads
    push_cast at reads
    nlinarith

/-- The layout of the shortest digits is read as the double. -/
theorem readsAs_layout (double : IsDouble m e) : ReadsAs m e (decimalValue (digits m e).layout.toList) := by
  have given := digits_ne_nil double
  have proper := Digits.proper_decimal given isDigit_digits
  rw [Digits.toList_layout given, Decimal.decimalValue_text proper.isDigit_whole proper.isDigit_places,
    Digits.value_decimal given]
  exact readsAs_digits double

end Shortest

/-! ## Doubles -/

namespace Json

variable {x y : Float} {b : Binary}

theorem realText_of_finite (h : FloatView.of x = .finite b) :
    realText x = signText b.negative ++ (Shortest.digits b.mantissa b.exponent).layout := by
  simp only [realText, floatText, h]

/-- The text of a finite double is a sign and a decimal. -/
theorem toList_realText (h : FloatView.of x = .finite b) : ∃ d : Decimal, d.Proper ∧
    (realText x).toList = (signText b.negative).toList ++ d.text ∧
      Shortest.ReadsAs b.mantissa b.exponent (decimalValue d.text) := by
  have double := FloatView.isDouble_of h
  have given := Shortest.digits_ne_nil double
  have layout := Digits.toList_layout given
  refine ⟨_, Digits.proper_decimal given Shortest.isDigit_digits, ?_, layout ▸ Shortest.readsAs_layout double⟩
  rw [realText_of_finite h, String.toList_append, layout]

theorem realText_of_infinite {negative : Bool} (h : FloatView.of x = .infinite negative) :
    realText x = if negative then "-Infinity" else "Infinity" := by
  simp only [realText, h]

theorem realText_of_notANumber (h : FloatView.of x = .notANumber) : realText x = "NaN" := by
  simp only [realText, h]

theorem mem_realText_of_finite (h : FloatView.of x = .finite b) {c : Char} (hc : c ∈ (realText x).toList) :
    c.isDigit = true ∨ c ∈ ['.', 'e', '+', '-'] := by
  obtain ⟨d, proper, text, -⟩ := toList_realText h
  rw [text, List.mem_append] at hc
  rcases hc with sign | hc
  · refine .inr ?_
    revert sign
    cases b.negative <;> simp +contextual [signText]
  · exact proper.mem_text hc

/-- What stands in the text of a double beside digits. -/
def realMarks : List Char := ['.', 'e', '+', '-', 'I', 'n', 'f', 'i', 't', 'y', 'N', 'a']

theorem mem_realText {c : Char} (hc : c ∈ (realText x).toList) :
    c.isDigit = true ∨ c ∈ realMarks := by
  have word : ∀ {w : List Char}, w.all (· ∈ realMarks) = true → c ∈ w → c ∈ realMarks :=
    fun all hc => of_decide_eq_true (List.all_eq_true.mp all c hc)
  cases h : FloatView.of x with
  | finite b => exact (mem_realText_of_finite h hc).imp_right (List.mem_append_left _)
  | infinite negative =>
    rw [realText_of_infinite h] at hc
    exact .inr (word (by cases negative <;> decide) hc)
  | notANumber =>
    rw [realText_of_notANumber h] at hc
    exact .inr (word (by decide) hc)

/-- Every double has a character that no integer has. -/
theorem marked_realText (x : Float) : ∃ c ∈ (realText x).toList, c ∈ ['.', 'e', 'I', 'N'] := by
  cases h : FloatView.of x with
  | finite b =>
    obtain ⟨d, proper, text, -⟩ := toList_realText h
    rw [text]
    rcases proper.marked_text with point | power
    · exact ⟨_, List.mem_append_right _ point, by decide⟩
    · exact ⟨_, List.mem_append_right _ power, by decide⟩
  | infinite negative =>
    rw [realText_of_infinite h]
    exact ⟨'I', by cases negative <;> decide, by decide⟩
  | notANumber =>
    rw [realText_of_notANumber h]
    exact ⟨'N', by decide, by decide⟩

/-- A text that begins with a sign has no sign before it. -/
theorem signed_inj {sign sign' : Bool} {d d' : Decimal} (proper : d.Proper) (proper' : d'.Proper)
    (h : (signText sign).toList ++ d.text = (signText sign').toList ++ d'.text) : sign = sign' ∧ d.text = d'.text := by
  obtain ⟨c, rest, text, digit⟩ := Decimal.text_eq_cons proper.isDigit_whole proper.whole_ne_nil
  obtain ⟨c', rest', text', digit'⟩ := Decimal.text_eq_cons proper'.isDigit_whole proper'.whole_ne_nil
  cases sign <;> cases sign'
  · exact ⟨rfl, h⟩
  · rw [text] at h
    exact absurd (List.cons.inj h).1 (ne_of_isDigit digit rfl)
  · rw [text'] at h
    exact absurd (List.cons.inj h).1.symm (ne_of_isDigit digit' rfl)
  · exact ⟨rfl, (List.cons.inj h).2⟩

theorem view_eq_of_finite {b' : Binary} (hx : FloatView.of x = .finite b) (hy : FloatView.of y = .finite b')
    (h : realText x = realText y) : b = b' := by
  obtain ⟨d, proper, text, reads⟩ := toList_realText hx
  obtain ⟨d', proper', text', reads'⟩ := toList_realText hy
  have signed := congrArg String.toList h
  rw [text, text'] at signed
  obtain ⟨sign, same⟩ := signed_inj proper proper' signed
  obtain ⟨mantissa, exponent⟩ := reads.unique (FloatView.isDouble_of hx) (FloatView.isDouble_of hy) (same ▸ reads')
  obtain ⟨_, _, _⟩ := b
  obtain ⟨_, _, _⟩ := b'
  dsimp only at sign mantissa exponent
  rw [sign, mantissa, exponent]

theorem mem_realText_I_iff : 'I' ∈ (realText x).toList ↔ ∃ negative, FloatView.of x = .infinite negative := by
  refine ⟨fun letter => ?_, fun ⟨negative, h⟩ => ?_⟩
  · cases h : FloatView.of x with
    | finite b => exact absurd (mem_realText_of_finite h letter) (by decide)
    | infinite negative => exact ⟨negative, rfl⟩
    | notANumber =>
      rw [realText_of_notANumber h] at letter
      exact absurd letter (by decide)
  · rw [realText_of_infinite h]
    cases negative <;> decide

theorem mem_realText_N_iff : 'N' ∈ (realText x).toList ↔ FloatView.of x = .notANumber := by
  refine ⟨fun letter => ?_, fun h => ?_⟩
  · cases h : FloatView.of x with
    | finite b => exact absurd (mem_realText_of_finite h letter) (by decide)
    | infinite negative =>
      rw [realText_of_infinite h] at letter
      exact absurd letter (by cases negative <;> decide)
    | notANumber => rfl
  · rw [realText_of_notANumber h]
    decide

/-- No two doubles have one text. -/
theorem realText_injective : Function.Injective realText := by
  intro x y h
  have infinite : (∃ negative, FloatView.of x = .infinite negative) ↔
      ∃ negative, FloatView.of y = .infinite negative := by
    rw [← mem_realText_I_iff, h, mem_realText_I_iff]
  have nan : FloatView.of x = .notANumber ↔ FloatView.of y = .notANumber := by
    rw [← mem_realText_N_iff, h, mem_realText_N_iff]
  refine FloatView.of_injective ?_
  cases hx : FloatView.of x with
  | finite b =>
    cases hy : FloatView.of y with
    | finite b' => rw [view_eq_of_finite hx hy h]
    | infinite negative => exact absurd (infinite.mpr ⟨negative, hy⟩) (by simp [hx])
    | notANumber => exact absurd (nan.mpr hy) (by simp [hx])
  | infinite negative =>
    obtain ⟨negative', hy⟩ := infinite.mp ⟨negative, hx⟩
    rw [realText_of_infinite hx, realText_of_infinite hy] at h
    rw [hy]
    revert h
    cases negative <;> cases negative' <;> decide
  | notANumber => exact (nan.mp hx).symm

/-! ## Integers -/

theorem mem_toString {n : Int} {c : Char} (hc : c ∈ (toString n).toList) : c.isDigit = true ∨ c = '-' := by
  rw [Int.toString_eq_repr, Int.repr_eq_if] at hc
  split at hc
  · exact .inl (isDigit_of_mem_repr hc)
  · rw [String.toList_append, List.mem_append] at hc
    exact hc.symm.imp isDigit_of_mem_repr List.mem_singleton.mp

theorem toString_ne_empty (n : Int) : toString n ≠ "" := by
  rw [Int.toString_eq_repr, Int.repr_eq_if]
  split
  · exact Nat.repr_ne_empty
  · exact fun h => absurd (String.append_eq_empty_iff.mp h).1 (by decide)

/-- No double is written like an integer. -/
theorem realText_ne_toString (x : Float) (n : Int) : realText x ≠ toString n := by
  intro h
  obtain ⟨c, hc, marked⟩ := marked_realText x
  rw [h] at hc
  simp only [List.mem_cons, List.not_mem_nil, or_false] at marked
  rcases marked with rfl | rfl | rfl | rfl <;> exact absurd (mem_toString hc) (by decide)

end Json

end VectorGraph
