import VectorGraph.Proofs.Json.Grammar
import VectorGraph.Proofs.Number.Coordinate

/-!
Numbers are read as they are spelled.

The digits in front of a number are those of a natural number, since no zero leads them (`exists_leading`). What follows
says whether it is an integer or a double, if a character stands behind it with which no number goes on
(`unsignedNumber?_whole`, `unsignedNumber?_real`); and whatever is read was spelled (`spells_of_unsignedNumber?`).
-/
namespace VectorGraph.Json

open Decimal (count)

variable {cs ds ps rest more : List Char} {e : Int} {n : Nat} {negative : Bool} {v : Json}

/-! ## Digits -/

/-- No digit stands in front. -/
def NoDigit (cs : List Char) : Prop := ∀ c ∈ cs.head?, isDigit c = false

theorem takeWhile_digits (digits : ∀ c ∈ ds, isDigit c = true) (stop : NoDigit more) :
    (ds ++ more).takeWhile isDigit = ds ∧ (ds ++ more).dropWhile isDigit = more := by
  rw [List.takeWhile_append_of_pos digits, List.dropWhile_append_of_pos digits]
  cases more with
  | nil => simp
  | cons c more => simp [stop c rfl]

theorem digitsValue_repr (n : Nat) : digitsValue n.repr.toList = n := by
  have value := count_repr n
  rw [count, Nat.ofDigitChars_eq_foldl] at value
  rw [digitsValue]
  simpa only [Nat.mul_comm] using value

theorem isDigits_takeWhile (given : (cs.takeWhile isDigit).isEmpty = false) : IsDigits (cs.takeWhile isDigit) :=
  ⟨fun none => by simp [none] at given, fun _ hc => List.mem_takeWhile_imp hc⟩

theorem isDigits_repr (n : Nat) : IsDigits n.repr.toList :=
  ⟨Nat.toList_repr ▸ Nat.toDigits_ne_nil, fun _ hc => isDigit_of_mem_repr hc⟩

theorem exists_digitChar {c : Char} (digit : isDigit c = true) : ∃ d < 10, c = d.digitChar := by
  obtain ⟨low, high⟩ := Char.isDigit_iff_toNat.mp digit
  have small : c.toNat - 48 < 10 := by
    have nine : '9'.toNat = 57 := rfl
    omega
  refine ⟨c.toNat - 48, small, Char.toNat_inj.mp ?_⟩
  rw [Nat.toNat_digitChar_of_lt_ten small]
  exact (Nat.add_sub_cancel' low).symm

/-- Digits that no zero leads are those of a natural number. -/
theorem exists_eq_repr (given : IsDigits ds) (nonzero : ds.head? ≠ some '0') : ∃ n : Nat, ds = n.repr.toList := by
  obtain ⟨some, digits⟩ := given
  induction ds using List.reverseRecOn with
  | nil => exact absurd rfl some
  | append_singleton ds c ih =>
    obtain ⟨d, small, rfl⟩ := exists_digitChar (digits c (by simp))
    cases ds with
    | nil => exact ⟨d, by rw [Nat.toList_repr, Nat.toDigits_of_lt_base small]; rfl⟩
    | cons a ds =>
      obtain ⟨n, front⟩ := ih nonzero (List.cons_ne_nil a ds) fun c hc => digits c (List.mem_append_left _ hc)
      have pos : 0 < n := by
        rcases Nat.eq_zero_or_pos n with rfl | pos
        · exact absurd (congrArg List.head? front) nonzero
        · exact pos
      refine ⟨10 * n + d, ?_⟩
      rw [front, Nat.toList_repr, Nat.toList_repr, ← Nat.toDigits_append_toDigits (by decide) pos small,
        Nat.toDigits_of_lt_base small]

/-- The digits with which a number begins: a zero alone, or all that stand there. -/
def leading (cs : List Char) : List Char :=
  match cs with
  | '0' :: _ => ['0']
  | _ => cs.takeWhile isDigit

theorem leading_repr (n : Nat) (stop : NoDigit rest) : leading (n.repr.toList ++ rest) = n.repr.toList := by
  rcases Nat.eq_zero_or_pos n with rfl | pos
  · rfl
  · obtain ⟨c, front, digits, nonzero⟩ := exists_repr_eq_cons pos
    have all := (takeWhile_digits (isDigits_repr n).2 stop).1
    rw [digits] at all ⊢
    unfold leading
    split
    · next same => exact absurd (List.cons.inj same).1 nonzero
    · exact all

theorem exists_leading (given : (leading cs).isEmpty = false) :
    ∃ (n : Nat) (rest : List Char), cs = n.repr.toList ++ rest ∧ leading cs = n.repr.toList := by
  unfold leading at given ⊢
  split at given
  · next rest => exact ⟨0, rest, rfl, rfl⟩
  · next nonzero =>
    have digits := isDigits_takeWhile given
    obtain ⟨n, same⟩ := exists_eq_repr digits fun zero => by
      cases cs with
      | nil => cases zero
      | cons c cs =>
        rw [List.takeWhile_cons] at zero
        split at zero
        · exact nonzero cs (by rw [Option.some.inj zero])
        · cases zero
    exact ⟨n, cs.dropWhile isDigit, by rw [← same, List.takeWhile_append_dropWhile], same⟩

/-! ## Places and powers -/

theorem fraction?_of_digits (given : IsDigits ds) (stop : NoDigit more) :
    fraction? ('.' :: (ds ++ more)) = some (ds, more) := by
  obtain ⟨taken, dropped⟩ := takeWhile_digits given.2 stop
  have some : ds.isEmpty = false := List.isEmpty_eq_false_iff.mpr given.1
  simp only [fraction?, taken, dropped, some, Bool.false_eq_true, if_false]

theorem fraction?_eq_none (h : cs.head? ≠ some '.') : fraction? cs = none := by
  unfold fraction?
  split
  · exact absurd rfl h
  · rfl

/-- What is read as places spells them, be it nothing. -/
theorem exists_places (cs : List Char) : ∃ places ds more, cs = places ++ more ∧ SpellsPlaces places ds ∧
    (fraction? cs).getD ([], cs) = (ds, more) ∧ (fraction? cs = none ↔ places = []) := by
  unfold fraction?
  split
  · next rest =>
    dsimp only
    split
    · exact ⟨[], [], _, rfl, .none, rfl, iff_of_true rfl rfl⟩
    · next given =>
      refine ⟨'.' :: rest.takeWhile isDigit, _, rest.dropWhile isDigit, ?_,
        .some (isDigits_takeWhile (eq_false_of_ne_true given)), rfl,
        iff_of_false (Option.some_ne_none _) (List.cons_ne_nil _ _)⟩
      rw [List.cons_append, List.takeWhile_append_dropWhile]
  · exact ⟨[], [], _, rfl, .none, rfl, iff_of_true rfl rfl⟩

/-- A sign and what stands behind it. -/
def signed (cs : List Char) : Bool × List Char :=
  match cs with
  | '-' :: more => (true, more)
  | '+' :: more => (false, more)
  | other => (false, other)

theorem signed_cases (cs : List Char) : (∃ more, cs = '-' :: more ∧ signed cs = (true, more)) ∨
    ∃ sign more, (sign = [] ∨ sign = ['+']) ∧ cs = sign ++ more ∧ signed cs = (false, more) := by
  unfold signed
  split
  · next more => exact .inl ⟨more, rfl, rfl⟩
  · next more => exact .inr ⟨['+'], more, .inr rfl, rfl, rfl⟩
  · exact .inr ⟨[], cs, .inl rfl, rfl, rfl⟩

/-- A digit is no sign. -/
theorem signed_digits (given : IsDigits ds) (more : List Char) : signed (ds ++ more) = (false, ds ++ more) := by
  obtain ⟨d, ds, rfl⟩ := List.exists_cons_of_ne_nil given.1
  have digit := given.2 d List.mem_cons_self
  rw [List.cons_append]
  unfold signed
  split
  · next same => exact absurd (List.cons.inj same).1 (ne_of_isDigit digit rfl)
  · next same => exact absurd (List.cons.inj same).1 (ne_of_isDigit digit rfl)
  · rfl

theorem exponent?_cons {c : Char} (letter : c = 'e' ∨ c = 'E') (cs : List Char) :
    exponent? (c :: cs) =
      if ((signed cs).2.takeWhile isDigit).isEmpty then none
      else some (if (signed cs).1 then -(digitsValue ((signed cs).2.takeWhile isDigit) : Int)
        else digitsValue ((signed cs).2.takeWhile isDigit), (signed cs).2.dropWhile isDigit) := by
  simp only [exponent?, if_pos letter]
  rfl

theorem exponent?_of_digits {c : Char} (negative : Bool) (letter : c = 'e' ∨ c = 'E')
    (sign : signed cs = (negative, ds ++ more)) (given : IsDigits ds) (stop : NoDigit more) :
    exponent? (c :: cs) = some (if negative then -(digitsValue ds : Int) else digitsValue ds, more) := by
  obtain ⟨taken, dropped⟩ := takeWhile_digits given.2 stop
  have some : ds.isEmpty = false := List.isEmpty_eq_false_iff.mpr given.1
  rw [exponent?_cons letter, sign, taken, dropped, some, if_neg Bool.false_ne_true]

theorem exponent?_of_spells (h : SpellsPower ps e) (given : ps ≠ []) (stop : NoDigit more) :
    exponent? (ps ++ more) = some (e, more) := by
  cases h with
  | none => exact absurd rfl given
  | @some c sign digits letter signs isDigits =>
    rw [List.cons_append, List.append_assoc]
    rcases signs with rfl | rfl
    · exact exponent?_of_digits false letter (signed_digits isDigits more) isDigits stop
    · exact exponent?_of_digits false letter rfl isDigits stop
  | minus letter isDigits => exact exponent?_of_digits true letter rfl isDigits stop

theorem exponent?_eq_none (h : cs.head? ≠ some 'e' ∧ cs.head? ≠ some 'E') : exponent? cs = none := by
  cases cs with
  | nil => rfl
  | cons c cs =>
    have other : ¬(c = 'e' ∨ c = 'E') := by simpa using h
    simp only [exponent?, if_neg other]

/-- What is read as a power spells it, be it nothing. -/
theorem exists_power (cs : List Char) : ∃ power e more, cs = power ++ more ∧ SpellsPower power e ∧
    (exponent? cs).getD (0, cs) = (e, more) ∧ (exponent? cs = none ↔ power = []) := by
  have nothing : exponent? cs = none → ∃ power e more, cs = power ++ more ∧ SpellsPower power e ∧
      (exponent? cs).getD (0, cs) = (e, more) ∧ (exponent? cs = none ↔ power = []) := fun none =>
    ⟨[], 0, cs, rfl, .none, by rw [none, Option.getD_none], iff_of_true none rfl⟩
  cases cs with
  | nil => exact nothing rfl
  | cons c cs =>
    by_cases letter : c = 'e' ∨ c = 'E'
    · by_cases given : ((signed cs).2.takeWhile isDigit).isEmpty
      · exact nothing (by rw [exponent?_cons letter, if_pos given])
      · have digits := isDigits_takeWhile (eq_false_of_ne_true given)
        rw [exponent?_cons letter, if_neg given]
        rcases signed_cases cs with ⟨more, rfl, sign⟩ | ⟨front, more, signs, rfl, sign⟩
        · rw [sign] at digits ⊢
          exact ⟨_, _, _, by rw [List.cons_append, List.cons_append, List.takeWhile_append_dropWhile],
            .minus letter digits, rfl, iff_of_false (Option.some_ne_none _) (List.cons_ne_nil _ _)⟩
        · rw [sign] at digits ⊢
          exact ⟨_, _, _, by rw [List.cons_append, List.append_assoc, List.takeWhile_append_dropWhile],
            .some letter signs digits, rfl, iff_of_false (Option.some_ne_none _) (List.cons_ne_nil _ _)⟩
    · exact nothing (by simp only [exponent?, if_neg letter])

/-! ## Numbers -/

/-- No number goes on with the character that stands here. -/
def Stops (cs : List Char) : Prop := NoDigit cs ∧ cs.head? ≠ some '.' ∧ cs.head? ≠ some 'e' ∧ cs.head? ≠ some 'E'

/-- What a number is read as, its first digits being read. -/
def numberFrom (negative : Bool) (digits rest : List Char) : Option (Json × List Char) :=
  let (places, afterPoint) := (fraction? rest).getD ([], rest)
  match fraction? rest, exponent? afterPoint with
  | none, none =>
    if maxDigits < digits.length then none
    else
      let n : Int := digitsValue digits
      some (.whole (if negative then -n else n), rest)
  | _, power =>
    let (e, after) := power.getD (0, afterPoint)
    some (.real (decimalDouble negative (digitsValue (digits ++ places)) (e - places.length)), after)

theorem unsignedNumber?_eq (negative : Bool) (cs : List Char) : unsignedNumber? negative cs =
    if (leading cs).isEmpty then none else numberFrom negative (leading cs) (cs.drop (leading cs).length) := rfl

theorem unsignedNumber?_repr (negative : Bool) (n : Nat) (stop : NoDigit rest) :
    unsignedNumber? negative (n.repr.toList ++ rest) = numberFrom negative n.repr.toList rest := by
  have some : n.repr.toList.isEmpty = false := List.isEmpty_eq_false_iff.mpr (isDigits_repr n).1
  rw [unsignedNumber?_eq, leading_repr n stop, List.drop_left, some, if_neg Bool.false_ne_true]

theorem numberFrom_whole (noPlaces : fraction? cs = none) (noPower : exponent? cs = none) :
    numberFrom negative n.repr.toList cs =
      if maxDigits < n.repr.length then none else some (.whole (if negative then -n else n), cs) := by
  rw [numberFrom, noPlaces]
  simp only [Option.getD_none, noPower, String.length_toList, digitsValue_repr]

theorem numberFrom_real (places : (fraction? cs).getD ([], cs) = (ds, more))
    (power : (exponent? more).getD (0, more) = (e, rest)) (marked : fraction? cs ≠ none ∨ exponent? more ≠ none) :
    numberFrom negative n.repr.toList cs =
      some (.real (decimalDouble negative (digitsValue (n.repr.toList ++ ds)) (e - ds.length)), rest) := by
  rw [numberFrom, places]
  dsimp only
  split
  · next noPlaces noPower => exact (marked.elim (· noPlaces) (· noPower)).elim
  · rw [power]

theorem unsignedNumber?_whole (negative : Bool) (n : Nat) (stop : Stops rest) :
    unsignedNumber? negative (n.repr.toList ++ rest) =
      if maxDigits < n.repr.length then none else some (.whole (if negative then -n else n), rest) := by
  obtain ⟨noDigit, noPoint, noPower⟩ := stop
  rw [unsignedNumber?_repr negative n noDigit, numberFrom_whole (fraction?_eq_none noPoint) (exponent?_eq_none noPower)]

/-- A power begins with a letter. -/
theorem head_power (h : SpellsPower ps e) (stop : Stops rest) :
    NoDigit (ps ++ rest) ∧ (ps ++ rest).head? ≠ some '.' := by
  cases h with
  | none => exact ⟨stop.1, stop.2.1⟩
  | some letter | minus letter =>
    rcases letter with rfl | rfl <;> exact ⟨fun c hc => by rw [← Option.some.inj hc]; rfl, by simp⟩

theorem unsignedNumber?_real (negative : Bool) (n : Nat) {places : List Char} (fraction : SpellsPlaces places ds)
    (exponent : SpellsPower ps e) (marked : places ≠ [] ∨ ps ≠ []) (stop : Stops rest) :
    unsignedNumber? negative (n.repr.toList ++ (places ++ (ps ++ rest))) =
      some (.real (decimalDouble negative (digitsValue (n.repr.toList ++ ds)) (e - ds.length)), rest) := by
  obtain ⟨noDigit, noPoint⟩ := head_power exponent stop
  have power : (exponent? (ps ++ rest)).getD (0, ps ++ rest) = (e, rest) := by
    by_cases given : ps = []
    · subst given
      cases exponent
      rw [List.nil_append, exponent?_eq_none stop.2.2, Option.getD_none]
    · rw [exponent?_of_spells exponent given stop.1, Option.getD_some]
  cases fraction with
  | none =>
    have given : ps ≠ [] := marked.resolve_left (not_not.mpr rfl)
    have noPlaces := fraction?_eq_none noPoint
    rw [List.nil_append, unsignedNumber?_repr negative n noDigit]
    refine numberFrom_real (by rw [noPlaces, Option.getD_none]) power (.inr ?_)
    rw [exponent?_of_spells exponent given stop.1]
    exact Option.some_ne_none _
  | some given =>
    have places := fraction?_of_digits given noDigit
    rw [List.cons_append, unsignedNumber?_repr negative n fun c hc => by rw [← Option.some.inj hc]; rfl]
    refine numberFrom_real (by rw [places, Option.getD_some]) power (.inl ?_)
    rw [places]
    exact Option.some_ne_none _

/-- An integer with its sign is spelled by the sign and the digits; zero may have one, too. -/
theorem spells_whole (negative : Bool) (n : Nat) :
    Spells (minus negative ++ n.repr.toList) (.whole (if negative then -n else n)) := by
  cases negative with
  | false => exact .whole n
  | true =>
    cases n with
    | zero => exact .minusZero
    | succ n =>
      have text : (toString (Int.negSucc n)).toList = '-' :: (n + 1).repr.toList := String.toList_append
      have spelled := Spells.whole (.negSucc n)
      rwa [text] at spelled

theorem isWithin_whole (depth : Nat) (n : Int) :
    (Json.whole n).isWithin depth = decide (n.natAbs.repr.length ≤ maxDigits) := by
  cases depth <;> rfl

theorem isWithin_real (depth : Nat) (x : Float) : (Json.real x).isWithin depth = true := by
  cases depth <;> rfl

/-- What is read behind the first digits of a number spells it together with these. -/
theorem spells_of_numberFrom (h : numberFrom negative n.repr.toList cs = some (v, rest)) :
    ∃ text, cs = text ++ rest ∧ Spells (minus negative ++ (n.repr.toList ++ text)) v ∧ merged v = v ∧
      ∀ depth, v.isWithin depth = true := by
  obtain ⟨places, ds, more, rfl, fraction, read, noPlaces⟩ := exists_places cs
  obtain ⟨power, e, after, rfl, exponent, read', noPower⟩ := exists_power more
  by_cases marked : places ≠ [] ∨ power ≠ []
  · rw [numberFrom_real read read' (marked.imp (mt noPlaces.mp) (mt noPower.mp))] at h
    obtain ⟨rfl, rfl⟩ := Prod.mk.inj (Option.some.inj h)
    refine ⟨places ++ power, by rw [List.append_assoc], ?_, rfl, fun depth => isWithin_real depth _⟩
    simpa only [List.append_assoc] using Spells.real negative n fraction exponent marked
  · obtain ⟨rfl, rfl⟩ := (not_or.mp marked).imp not_not.mp not_not.mp
    have whole : numberFrom negative n.repr.toList after = _ := numberFrom_whole (noPlaces.mpr rfl) (noPower.mpr rfl)
    rw [List.nil_append, List.nil_append, whole] at h
    split at h
    · cases h
    · next short =>
      obtain ⟨rfl, rfl⟩ := Prod.mk.inj (Option.some.inj h)
      refine ⟨[], rfl, by rw [List.append_nil]; exact spells_whole negative n, rfl, fun depth => ?_⟩
      rw [isWithin_whole, decide_eq_true_iff]
      cases negative <;> simpa using short

/-- What is read as a number spells it. -/
theorem spells_of_unsignedNumber? (h : unsignedNumber? negative cs = some (v, rest)) :
    ∃ text, cs = text ++ rest ∧ Spells (minus negative ++ text) v ∧ merged v = v ∧
      ∀ depth, v.isWithin depth = true := by
  rw [unsignedNumber?_eq] at h
  split at h
  · cases h
  · next given =>
    obtain ⟨n, more, rfl, digits⟩ := exists_leading (eq_false_of_ne_true given)
    rw [digits, List.drop_left] at h
    obtain ⟨text, rfl, spelled⟩ := spells_of_numberFrom h
    exact ⟨n.repr.toList ++ text, by rw [List.append_assoc], spelled⟩

end VectorGraph.Json
