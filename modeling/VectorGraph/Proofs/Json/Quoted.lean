import VectorGraph.Json.Canonical
import VectorGraph.Json.Parser

/-!
Quoted strings are read back.

Every character is escaped in a way that the reader of strings undoes: one of seven short escapes, itself, one unit of
four digits, or two units that are a surrogate pair. So the reader stops at the closing quote of a quoted string with
the string that was quoted, whatever follows (`stringBody_escaped`). Two texts that begin with a quoted string
therefore agree only if they begin with the same one (`quoted_append_inj`).
-/
namespace VectorGraph.Json

theorem hexDigit?_hexChar : ∀ n < 16, hexDigit? (hexChar n) = some n := by decide

/-- Four digits are read as the unit that they were written for. -/
theorem hexUnit?_unitEscape {unit : Nat} (size : unit < 0x10000) (rest : List Char) :
    hexUnit? ((unitEscape unit).drop 2 ++ rest) = some (unit, rest) := by
  have digit : ∀ n, hexDigit? (hexChar (n % 16)) = some (n % 16) := fun n =>
    hexDigit?_hexChar _ (Nat.mod_lt n (by decide))
  have value : ((unit / 4096 % 16 * 16 + unit / 256 % 16) * 16 + unit / 16 % 16) * 16 + unit % 16 = unit := by omega
  show (do
    let a ← hexDigit? (hexChar (unit / 4096 % 16))
    let b ← hexDigit? (hexChar (unit / 256 % 16))
    let c ← hexDigit? (hexChar (unit / 16 % 16))
    let d ← hexDigit? (hexChar (unit % 16))
    return (((a * 16 + b) * 16 + c) * 16 + d, rest)) = _
  rw [digit, digit, digit, digit]
  exact congrArg (fun n => some (n, rest)) value

theorem unitEscape_eq (unit : Nat) : unitEscape unit = '\\' :: 'u' :: (unitEscape unit).drop 2 := rfl

/-- No character is a surrogate. -/
theorem not_surrogate (c : Char) : ¬(0xD800 ≤ c.toNat ∧ c.toNat ≤ 0xDFFF) := by
  have valid := c.valid
  rintro ⟨low, high⟩
  rcases valid with below | above
  · exact absurd below (by simp only [Char.toNat] at low; omega)
  · exact absurd above.1 (by simp only [Char.toNat] at high; omega)

/-- One unit is read as the character that it was written for. -/
theorem unicodeEscape?_unit {c : Char} (size : c.toNat < 0x10000) (rest : List Char) :
    unicodeEscape? ((unitEscape c.toNat).drop 2 ++ rest) = some (c, rest) := by
  have proper := not_surrogate c
  have notHigh : ¬(0xD800 ≤ c.toNat ∧ c.toNat ≤ 0xDBFF) := by omega
  have alone : loneUnit c.toNat = c := by rw [loneUnit, if_neg proper, Char.ofNat_toNat]
  simp only [unicodeEscape?, hexUnit?_unitEscape size, Option.bind_eq_bind, Option.bind_some, if_neg notHigh, alone]
  rfl

/-- A surrogate pair is read as one character. -/
theorem unicodeEscape?_pair {high low : Nat} (isHigh : 0xD800 ≤ high ∧ high ≤ 0xDBFF)
    (isLow : 0xDC00 ≤ low ∧ low ≤ 0xDFFF) (rest : List Char) :
    unicodeEscape? ((unitEscape high).drop 2 ++ (unitEscape low ++ rest)) =
      some (Char.ofNat (0x10000 + (high - 0xD800) * 0x400 + (low - 0xDC00)), rest) := by
  have low_ : hexUnit? ((unitEscape low).drop 2 ++ rest) = some (low, rest) := hexUnit?_unitEscape (by omega) rest
  rw [unicodeEscape?, hexUnit?_unitEscape (by omega), unitEscape_eq low]
  simp only [Option.bind_eq_bind, Option.bind_some, if_pos isHigh, List.cons_append, low_, if_pos isLow]
  rfl

/-- The two units of a character beyond the basic plane are a pair that stands for it. -/
theorem surrogates_of_beyond {c : Char} (beyond : ¬c.toNat < 0x10000) :
    (0xD800 ≤ 0xD800 + (c.toNat - 0x10000) / 0x400 ∧ 0xD800 + (c.toNat - 0x10000) / 0x400 ≤ 0xDBFF) ∧
      (0xDC00 ≤ 0xDC00 + (c.toNat - 0x10000) % 0x400 ∧ 0xDC00 + (c.toNat - 0x10000) % 0x400 ≤ 0xDFFF) ∧
        Char.ofNat (0x10000 + (0xD800 + (c.toNat - 0x10000) / 0x400 - 0xD800) * 0x400 +
          (0xDC00 + (c.toNat - 0x10000) % 0x400 - 0xDC00)) = c := by
  have size : c.toNat < 0x110000 := by
    rcases c.valid with below | above
    · exact Nat.lt_of_lt_of_le below (by decide)
    · exact above.2
  have whole : 0x10000 + (0xD800 + (c.toNat - 0x10000) / 0x400 - 0xD800) * 0x400 +
      (0xDC00 + (c.toNat - 0x10000) % 0x400 - 0xDC00) = c.toNat := by omega
  rw [whole, Char.ofNat_toNat]
  exact ⟨by omega, by omega, rfl⟩

/-- An escape of units is read as its character. -/
theorem stringBody_of_unicodeEscape {cs after : List Char} {c : Char} (h : unicodeEscape? cs = some (c, after))
    (fuel : Nat) (acc : List Char) :
    stringBody (fuel + 1) acc ('\\' :: 'u' :: cs) = stringBody fuel (c :: acc) after := by
  have notQuote : ¬ '\\' = '"' := by decide
  simp only [stringBody, if_neg notQuote, if_true, h]

/-- One escaped character is read as that character. -/
theorem stringBody_escapeChar (fuel : Nat) (acc : List Char) (c : Char) (rest : List Char) :
    stringBody (fuel + 1) acc (escapeChar c ++ rest) = stringBody fuel (c :: acc) rest := by
  unfold escapeChar
  split
  · rfl
  · rfl
  · rfl
  · rfl
  · rfl
  · rfl
  · rfl
  · next quote backslash _ _ _ _ _ =>
    dsimp only
    split
    · next printable =>
      have visible : ¬c.toNat < 0x20 := by omega
      simp only [List.cons_append, List.nil_append, stringBody, if_neg quote, if_neg backslash, if_neg visible]
    · split
      · next size =>
        exact stringBody_of_unicodeEscape (unicodeEscape?_unit size rest) fuel acc
      · next beyond =>
        obtain ⟨isHigh, isLow, whole⟩ := surrogates_of_beyond beyond
        rw [List.append_assoc, unitEscape_eq (0xD800 + _)]
        exact stringBody_of_unicodeEscape ((unicodeEscape?_pair isHigh isLow rest).trans (by rw [whole])) fuel acc

/-- The reader stops at the closing quote with the string that was quoted. -/
theorem stringBody_escaped (cs rest : List Char) : ∀ (fuel : Nat) (acc : List Char), cs.length < fuel →
    stringBody fuel acc (cs.flatMap escapeChar ++ '"' :: rest) = some (String.ofList (acc.reverse ++ cs), rest) := by
  induction cs with
  | nil =>
    intro fuel acc given
    obtain ⟨fuel, rfl⟩ := Nat.exists_eq_add_of_lt given
    simp [stringBody]
  | cons c cs ih =>
    intro fuel acc given
    obtain ⟨fuel, rfl⟩ := Nat.exists_eq_succ_of_ne_zero (Nat.ne_zero_of_lt given)
    rw [List.flatMap_cons, List.append_assoc, stringBody_escapeChar, ih fuel (c :: acc) (Nat.lt_of_succ_lt_succ given),
      List.reverse_cons, List.append_assoc]
    rfl

theorem toList_quoted_append (s : String) (rest : List Char) :
    (quoted s).toList ++ rest = '"' :: (s.toList.flatMap escapeChar ++ '"' :: rest) := by
  simp [quoted]

/-- What begins with a quoted string tells which, and what follows. -/
theorem quoted_append_inj {s t : String} {rest rest' : List Char}
    (h : (quoted s).toList ++ rest = (quoted t).toList ++ rest') : s = t ∧ rest = rest' := by
  rw [toList_quoted_append, toList_quoted_append] at h
  have body := (List.cons.inj h).2
  have left := stringBody_escaped s.toList rest (s.toList.length + t.toList.length + 1) [] (by omega)
  have right := stringBody_escaped t.toList rest' (s.toList.length + t.toList.length + 1) [] (by omega)
  rw [body, right] at left
  obtain ⟨same, after⟩ := Prod.mk.inj (Option.some.inj left)
  exact ⟨(String.toList_inj.mp (String.ofList_injective same)).symm, after.symm⟩

end VectorGraph.Json
