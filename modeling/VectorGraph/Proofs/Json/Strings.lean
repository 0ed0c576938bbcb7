import VectorGraph.Proofs.Json.Grammar
import VectorGraph.Proofs.Json.Quoted

/-!
Strings are read as they are spelled.

An escape is read in one of two ways: with a second escape behind it if these two are a pair, and alone otherwise
(`unicodeEscape?_pair_of`, `unicodeEscape?_of_alone`). So the reader takes a string up to its closing quote exactly if
what stands there spells one (`stringBody_of_spells`, `spells_of_stringBody`).
-/
namespace VectorGraph.Json

variable {digits digits' cs t rest : List Char} {unit high low : Nat}

/-! ## Escapes -/

theorem hexUnit?_of_spells (h : SpellsUnit digits unit) (rest : List Char) :
    hexUnit? (digits ++ rest) = some (unit, rest) := by
  obtain ⟨first, second, third, fourth⟩ := h
  simp only [List.cons_append, List.nil_append, hexUnit?, first, second, third, fourth]
  rfl

theorem spells_of_hexUnit? (h : hexUnit? cs = some (unit, rest)) :
    ∃ digits, cs = digits ++ rest ∧ SpellsUnit digits unit := by
  match cs, h with
  | a :: b :: c :: d :: more, h =>
    obtain ⟨w, first, h⟩ := Option.bind_eq_some_iff.mp h
    obtain ⟨x, second, h⟩ := Option.bind_eq_some_iff.mp h
    obtain ⟨y, third, h⟩ := Option.bind_eq_some_iff.mp h
    obtain ⟨z, fourth, h⟩ := Option.bind_eq_some_iff.mp h
    obtain ⟨rfl, rfl⟩ := Prod.mk.inj (Option.some.inj h)
    exact ⟨[a, b, c, d], rfl, .digits first second third fourth⟩

theorem unicodeEscape?_pair_of (first : SpellsUnit digits high) (second : SpellsUnit digits' low)
    (isHigh : IsHigh high) (isLow : IsLow low) (rest : List Char) :
    unicodeEscape? (digits ++ '\\' :: 'u' :: (digits' ++ rest)) =
      some (Char.ofNat (0x10000 + (high - 0xD800) * 0x400 + (low - 0xDC00)), rest) := by
  unfold IsHigh at isHigh
  unfold IsLow at isLow
  rw [unicodeEscape?, hexUnit?_of_spells first]
  simp only [Option.bind_eq_bind, Option.bind_some, if_pos isHigh, hexUnit?_of_spells second, if_pos isLow]
  rfl

theorem unicodeEscape?_of_alone (first : SpellsUnit digits unit) (alone : IsHigh unit → ¬BeginsLow rest) :
    unicodeEscape? (digits ++ rest) = some (loneUnit unit, rest) := by
  rw [unicodeEscape?, hexUnit?_of_spells first]
  simp only [Option.bind_eq_bind, Option.bind_some]
  split
  · next isHigh =>
    split
    · next more =>
      split
      · next low after second =>
        split
        · next isLow =>
          obtain ⟨digits', rfl, spells⟩ := spells_of_hexUnit? second
          exact absurd ⟨digits', low, after, rfl, spells, isLow⟩ (alone isHigh)
        · rfl
      · rfl
    · rfl
  · rfl

/-- What an escape is read as is what it spells, in one of two ways. -/
theorem spells_of_unicodeEscape? {d : Char} (h : unicodeEscape? cs = some (d, rest)) :
    (∃ digits digits' high low, cs = digits ++ '\\' :: 'u' :: (digits' ++ rest) ∧ SpellsUnit digits high ∧
      SpellsUnit digits' low ∧ IsHigh high ∧ IsLow low ∧
      d = Char.ofNat (0x10000 + (high - 0xD800) * 0x400 + (low - 0xDC00))) ∨
    ∃ digits unit, cs = digits ++ rest ∧ SpellsUnit digits unit ∧ (IsHigh unit → ¬BeginsLow rest) ∧
      d = loneUnit unit := by
  obtain ⟨⟨unit, more⟩, read, -⟩ := Option.bind_eq_some_iff.mp h
  obtain ⟨digits, rfl, first⟩ := spells_of_hexUnit? read
  by_cases pair : IsHigh unit ∧ BeginsLow more
  · obtain ⟨isHigh, digits', low, after, rfl, second, isLow⟩ := pair
    rw [unicodeEscape?_pair_of first second isHigh isLow] at h
    obtain ⟨rfl, rfl⟩ := Prod.mk.inj (Option.some.inj h)
    exact .inl ⟨digits, digits', unit, low, rfl, first, second, isHigh, isLow, rfl⟩
  · rw [unicodeEscape?_of_alone first (not_and.mp pair)] at h
    obtain ⟨rfl, rfl⟩ := Prod.mk.inj (Option.some.inj h)
    exact .inr ⟨digits, unit, rfl, first, not_and.mp pair, rfl⟩

theorem BeginsLow.append (h : BeginsLow cs) (more : List Char) : BeginsLow (cs ++ more) := by
  obtain ⟨digits, unit, rest, rfl, spells, isLow⟩ := h
  exact ⟨digits, unit, rest ++ more, by simp, spells, isLow⟩

/-- The closing quote of a string does not make an escape out of what is none. -/
theorem SpellsChars.beginsLow (h : SpellsChars cs t) (begins : BeginsLow (cs ++ '"' :: rest)) : BeginsLow cs := by
  obtain ⟨digits, unit, after, same, spells, isLow⟩ := begins
  have read := hexUnit?_of_spells spells after
  cases h with
  | nil => exact absurd (List.cons.inj same).1 (by decide)
  | plain _ unescaped => exact absurd (List.cons.inj same).1 unescaped
  | short escape =>
    obtain rfl := (List.cons.inj (List.cons.inj same).2).1
    cases escape
  | @pair digits' digits'' cs _ high low first second isHigh _ _ =>
    rw [List.cons_append, List.cons_append, List.append_assoc] at same
    rw [← (List.cons.inj (List.cons.inj same).2).2, hexUnit?_of_spells first] at read
    obtain ⟨rfl, -⟩ := Prod.mk.inj (Option.some.inj read)
    exact ⟨digits', high, _, rfl, first, isLow⟩
  | @unit digits' cs _ unit' first _ _ =>
    rw [List.cons_append, List.cons_append, List.append_assoc] at same
    rw [← (List.cons.inj (List.cons.inj same).2).2, hexUnit?_of_spells first] at read
    obtain ⟨rfl, -⟩ := Prod.mk.inj (Option.some.inj read)
    exact ⟨digits', unit', cs, rfl, first, isLow⟩

/-! ## Strings -/

theorem stringBody_plain {c : Char} (unquoted : c ≠ '"') (unescaped : c ≠ '\\') (visible : 0x20 ≤ c.toNat)
    (fuel : Nat) (acc rest : List Char) :
    stringBody (fuel + 1) acc (c :: rest) = stringBody fuel (c :: acc) rest := by
  simp only [stringBody, if_neg unquoted, if_neg unescaped, if_neg (Nat.not_lt.mpr visible)]

theorem stringBody_short {c d : Char} (escape : shortEscape? c = some d) (fuel : Nat) (acc rest : List Char) :
    stringBody (fuel + 1) acc ('\\' :: c :: rest) = stringBody fuel (d :: acc) rest := by
  have notQuote : ¬ '\\' = '"' := by decide
  simp only [stringBody, if_neg notQuote, if_true]
  split
  · next same =>
    obtain ⟨rfl, -⟩ := List.cons.inj same
    cases escape
  · next same =>
    obtain ⟨rfl, rfl⟩ := List.cons.inj same
    simp only [escape]
  · next same => cases same

/-- What was read stands in front of what is read, last first. -/
theorem reverse_cons_append {α : Type} (d : α) (acc t : List α) : (d :: acc).reverse ++ t = acc.reverse ++ d :: t := by
  rw [List.reverse_cons, List.append_assoc, List.singleton_append]

/-- The reader takes what spells a string, up to the closing quote. -/
theorem stringBody_of_spells (h : SpellsChars cs t) : ∀ (fuel : Nat) (acc rest : List Char), cs.length < fuel →
    stringBody fuel acc (cs ++ '"' :: rest) = some (String.ofList (acc.reverse ++ t), rest) := by
  induction h with
  | nil =>
    intro fuel acc rest size
    obtain ⟨fuel, rfl⟩ := Nat.exists_eq_succ_of_ne_zero (Nat.ne_zero_of_lt size)
    simp [stringBody]
  | @plain c cs t unquoted unescaped visible _ ih =>
    intro fuel acc rest size
    obtain ⟨fuel, rfl⟩ := Nat.exists_eq_succ_of_ne_zero (Nat.ne_zero_of_lt size)
    rw [List.cons_append, stringBody_plain unquoted unescaped visible,
      ih fuel (c :: acc) rest (Nat.lt_of_succ_lt_succ size), reverse_cons_append]
  | @short c d cs t escape _ ih =>
    intro fuel acc rest size
    obtain ⟨fuel, rfl⟩ := Nat.exists_eq_succ_of_ne_zero (Nat.ne_zero_of_lt size)
    have less : cs.length < fuel := by
      simp only [List.length_cons] at size
      omega
    rw [List.cons_append, List.cons_append, stringBody_short escape, ih fuel (d :: acc) rest less, reverse_cons_append]
  | @pair digits digits' cs t high low first second isHigh isLow _ ih =>
    intro fuel acc rest size
    obtain ⟨fuel, rfl⟩ := Nat.exists_eq_succ_of_ne_zero (Nat.ne_zero_of_lt size)
    have less : cs.length < fuel := by
      simp only [List.length_cons, List.length_append] at size
      omega
    have escape := unicodeEscape?_pair_of first second isHigh isLow (cs ++ '"' :: rest)
    simp only [List.cons_append, List.append_assoc]
    rw [stringBody_of_unicodeEscape escape, ih fuel _ rest less, reverse_cons_append]
  | @unit digits cs t unit first alone more ih =>
    intro fuel acc rest size
    obtain ⟨fuel, rfl⟩ := Nat.exists_eq_succ_of_ne_zero (Nat.ne_zero_of_lt size)
    have less : cs.length < fuel := by
      simp only [List.length_cons, List.length_append] at size
      omega
    -- A unit that stands alone must not be taken for the first half of a pair with what follows it.
    have escape : unicodeEscape? (digits ++ (cs ++ '"' :: rest)) = _ :=
      unicodeEscape?_of_alone first fun isHigh begins => alone isHigh (more.beginsLow begins)
    simp only [List.cons_append, List.append_assoc]
    rw [stringBody_of_unicodeEscape escape, ih fuel _ rest less, reverse_cons_append]

/-- What the reader takes spells the string, and a quote stands behind it. -/
theorem spells_of_stringBody : ∀ {fuel : Nat} {acc cs rest : List Char} {s : String},
    stringBody fuel acc cs = some (s, rest) →
    ∃ body t, cs = body ++ '"' :: rest ∧ SpellsChars body t ∧ s = String.ofList (acc.reverse ++ t) := by
  intro fuel
  induction fuel with
  | zero =>
    intro acc cs rest s h
    cases h
  | succ fuel ih =>
    intro acc cs rest s h
    cases cs with
    | nil => cases h
    | cons c cs =>
      by_cases quote : c = '"'
      · simp only [stringBody, if_pos quote] at h
        obtain ⟨rfl, rfl⟩ := Prod.mk.inj (Option.some.inj h)
        exact ⟨[], [], by rw [quote]; rfl, .nil, by rw [List.append_nil]⟩
      by_cases escaped : c = '\\'
      · subst escaped
        cases cs with
        | nil => simp [stringBody] at h
        | cons e more =>
          by_cases unicode : e = 'u'
          · subst unicode
            cases escape : unicodeEscape? more with
            | none => simp [stringBody, escape] at h
            | some r =>
              obtain ⟨d, after⟩ := r
              rw [stringBody_of_unicodeEscape escape] at h
              obtain ⟨body, t, rfl, spells, rfl⟩ := ih h
              -- The escape was a pair of surrogates or a unit of its own.
              rcases spells_of_unicodeEscape? escape with
                ⟨digits, digits', high, low, rfl, first, second, isHigh, isLow, char⟩ |
                ⟨digits, unit, rfl, first, alone, rfl⟩
              · have whole := SpellsChars.pair first second isHigh isLow spells
                rw [← char] at whole
                exact ⟨_, _, by simp, whole, congrArg String.ofList (reverse_cons_append d acc t)⟩
              · exact ⟨_, _, by simp, .unit first (fun isHigh begins => alone isHigh (begins.append _)) spells,
                  congrArg String.ofList (reverse_cons_append _ acc t)⟩
          · cases escape : shortEscape? e with
            | none =>
              have refused : stringBody (fuel + 1) acc ('\\' :: e :: more) = none := by
                simp [stringBody, escape]
              rw [refused] at h
              cases h
            | some d =>
              rw [stringBody_short escape] at h
              obtain ⟨body, t, rfl, spells, rfl⟩ := ih h
              exact ⟨_, _, by simp, .short escape spells, congrArg String.ofList (reverse_cons_append _ acc t)⟩
      · by_cases visible : c.toNat < 0x20
        · simp [stringBody, quote, escaped, visible] at h
        · rw [stringBody_plain quote escaped (Nat.not_lt.mp visible)] at h
          obtain ⟨body, t, rfl, spells, rfl⟩ := ih h
          exact ⟨_, _, by simp, .plain quote escaped (Nat.not_lt.mp visible) spells,
            congrArg String.ofList (reverse_cons_append _ acc t)⟩

end VectorGraph.Json
