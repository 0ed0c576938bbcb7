import VectorGraph.Proofs.Json.Numbers
import VectorGraph.Proofs.Json.Strings

/-!
JSON texts are read as they are spelled.

A value is read up to its end if nothing stands there that it could go on with, which is told by the next character
(`Closes`). Fuel for each character is enough, for a list or an object takes its brackets before it gives what is left
to its parts. Lists and objects are read part by part (`items?_of_parts`, `fields?_of_parts`), and by induction on how a
text is spelled all values are (`reads_of_spells`).
-/
namespace VectorGraph.Json

variable {fuel depth : Nat} {cs t rest : List Char} {c : Char} {acc : List Json} {key : String} {v w : Json}

/-! ## Blanks and ends -/

theorem isBlank_iff : isBlank c = true ↔ c = ' ' ∨ c = '\t' ∨ c = '\n' ∨ c = '\r' := by
  simp [isBlank, or_assoc]

theorem skipBlank_append {blanks : List Char} (blank : Blanks blanks) (cs : List Char) :
    skipBlank (blanks ++ cs) = skipBlank cs :=
  List.dropWhile_append_of_pos blank

theorem skipBlank_cons (visible : isBlank c = false) (cs : List Char) : skipBlank (c :: cs) = c :: cs :=
  List.dropWhile_cons_of_neg (Bool.eq_false_iff.mp visible)

theorem exists_skipBlank (cs : List Char) : ∃ blanks, Blanks blanks ∧ cs = blanks ++ skipBlank cs :=
  ⟨cs.takeWhile isBlank, fun _ hc => List.mem_takeWhile_imp hc, List.takeWhile_append_dropWhile.symm⟩

/-- No value goes on with the character that stands here. -/
def Closes (cs : List Char) : Prop := ∀ c ∈ cs.head?, isBlank c = true ∨ c = ',' ∨ c = ']' ∨ c = '\x7d'

theorem closes_nil : Closes [] := nofun

theorem closes_cons (close : c = ',' ∨ c = ']' ∨ c = '\x7d') (cs : List Char) : Closes (c :: cs) := by
  intro d hd
  rw [← Option.some.inj hd]
  exact .inr close

theorem closes_append {blanks : List Char} (blank : Blanks blanks) (closes : Closes cs) : Closes (blanks ++ cs) := by
  cases blanks with
  | nil => exact closes
  | cons b blanks =>
    intro d hd
    rw [← Option.some.inj hd]
    exact .inl (blank b List.mem_cons_self)

theorem Closes.stops (closes : Closes cs) : Stops cs := by
  cases cs with
  | nil => exact ⟨nofun, nofun, nofun, nofun⟩
  | cons c cs =>
    have close := closes c rfl
    rw [isBlank_iff] at close
    have stops : isDigit c = false ∧ c ≠ '.' ∧ c ≠ 'e' ∧ c ≠ 'E' := by
      obtain (rfl | rfl | rfl | rfl) | rfl | rfl | rfl := close <;> decide
    obtain ⟨noDigit, noPoint, noPower⟩ := stops
    exact ⟨fun d hd => Option.some.inj hd ▸ noDigit, fun h => noPoint (Option.some.inj h),
      fun h => noPower.1 (Option.some.inj h), fun h => noPower.2 (Option.some.inj h)⟩

/-- What can begin a value stands in front. -/
def Begins (cs : List Char) : Prop := ∃ c rest, cs = c :: rest ∧ isBlank c = false ∧ c ≠ ']' ∧ c ≠ '\x7d'

theorem Begins.append (begins : Begins cs) (more : List Char) : Begins (cs ++ more) := by
  obtain ⟨c, rest, rfl, begin⟩ := begins
  exact ⟨c, rest ++ more, rfl, begin⟩

theorem Begins.skipBlank (begins : Begins cs) : skipBlank cs = cs := by
  obtain ⟨c, rest, rfl, visible, -⟩ := begins
  exact skipBlank_cons visible rest

/-- A number begins with a digit or with its sign. -/
theorem number_eq_cons (negative : Bool) (n : Nat) :
    ∃ c cs, minus negative ++ n.repr.toList = c :: cs ∧ (isDigit c = true ∨ c = '-') := by
  obtain ⟨d, ds, text⟩ := List.exists_cons_of_ne_nil (isDigits_repr n).1
  cases negative with
  | false => exact ⟨d, ds, text, .inl ((isDigits_repr n).2 d (text ▸ List.mem_cons_self))⟩
  | true => exact ⟨'-', n.repr.toList, rfl, .inr rfl⟩

theorem ne_of_numeric {d : Char} (numeric : isDigit c = true ∨ c = '-') (other : isDigit d = false)
    (notMinus : '-' ≠ d) : c ≠ d := by
  rcases numeric with digit | rfl
  · exact ne_of_isDigit digit other
  · exact notMinus

theorem begins_number (negative : Bool) (n : Nat) : Begins (minus negative ++ n.repr.toList) := by
  obtain ⟨c, cs, text, numeric⟩ := number_eq_cons negative n
  refine ⟨c, cs, text, Bool.eq_false_iff.mpr fun blank => ?_, ne_of_numeric numeric rfl (by decide),
    ne_of_numeric numeric rfl (by decide)⟩
  rw [isBlank_iff] at blank
  rcases numeric with digit | rfl
  · obtain rfl | rfl | rfl | rfl := blank <;> cases digit
  · exact absurd blank (by decide)

/-- An integer is written as a sign and digits. -/
theorem exists_sign (n : Int) : ∃ negative, ∃ k : Nat,
    (toString n).toList = minus negative ++ k.repr.toList ∧ n = if negative then -(k : Int) else k := by
  cases n with
  | ofNat k => exact ⟨false, k, rfl, rfl⟩
  | negSucc k => exact ⟨true, k + 1, String.toList_append, rfl⟩

theorem begins_name : ∀ f ∈ names, Begins f.1.toList := by
  intro f hf
  simp only [names, List.mem_cons, List.not_mem_nil, or_false] at hf
  obtain rfl | rfl | rfl | rfl | rfl | rfl := hf <;> exact ⟨_, _, rfl, rfl, by decide, by decide⟩

theorem Spells.begins (h : Spells t v) : Begins t := by
  cases h with
  | name named => exact begins_name _ named
  | whole n =>
    obtain ⟨negative, k, text, -⟩ := exists_sign n
    exact text ▸ begins_number negative k
  | minusZero => exact begins_number true 0
  | real negative n => exact ((begins_number negative n).append _).append _
  | text => exact ⟨'"', _, rfl, rfl, by decide, by decide⟩
  | emptyList | list => exact ⟨'[', _, rfl, rfl, by decide, by decide⟩
  | emptyObject | object => exact ⟨'\x7b', _, rfl, rfl, by decide, by decide⟩

/-! ## Values without parts -/

theorem dropWord?_eq_some {word : List Char} : dropWord? word cs = some rest ↔ cs = word ++ rest := by
  rw [dropWord?]
  constructor
  · intro h
    split at h
    · next front =>
      obtain ⟨more, rfl⟩ := List.isPrefixOf_iff_prefix.mp front
      rw [List.drop_left] at h
      rw [Option.some.inj h]
    · cases h
  · rintro rfl
    rw [if_pos (List.isPrefixOf_iff_prefix.mpr (List.prefix_append word rest)), List.drop_left]

theorem dropWord?_digit (digit : isDigit c = true) {name : String}
    (letter : ∃ d ds, name.toList = d :: ds ∧ isDigit d = false) (cs : List Char) :
    dropWord? name.toList (c :: cs) = none := by
  obtain ⟨d, ds, text, letter⟩ := letter
  rw [Option.eq_none_iff_forall_ne_some]
  intro rest h
  rw [dropWord?_eq_some, text] at h
  exact ne_of_isDigit digit letter (List.cons.inj h).1

theorem simpleValue?_digit (digit : isDigit c = true) (cs : List Char) :
    simpleValue? (c :: cs) = unsignedNumber? false (c :: cs) := by
  unfold simpleValue?
  split
  · next same => exact absurd (List.cons.inj same).1 (ne_of_isDigit digit rfl)
  · next same => exact absurd (List.cons.inj same).1 (ne_of_isDigit digit rfl)
  · rw [dropWord?_digit digit ⟨'n', _, rfl, rfl⟩, dropWord?_digit digit ⟨'t', _, rfl, rfl⟩,
      dropWord?_digit digit ⟨'f', _, rfl, rfl⟩, dropWord?_digit digit ⟨'N', _, rfl, rfl⟩,
      dropWord?_digit digit ⟨'I', _, rfl, rfl⟩]
    rfl

theorem simpleValue?_minus (digit : isDigit c = true) (cs : List Char) :
    simpleValue? ('-' :: c :: cs) = unsignedNumber? true (c :: cs) := by
  have other : dropWord? "Infinity".toList (c :: cs) = none := dropWord?_digit digit ⟨'I', _, rfl, rfl⟩ cs
  simp only [simpleValue?, other]

theorem simpleValue?_number (negative : Bool) (n : Nat) (cs : List Char) :
    simpleValue? (minus negative ++ (n.repr.toList ++ cs)) = unsignedNumber? negative (n.repr.toList ++ cs) := by
  obtain ⟨d, ds, text⟩ := List.exists_cons_of_ne_nil (isDigits_repr n).1
  have digit := (isDigits_repr n).2 d (text ▸ List.mem_cons_self)
  rw [text]
  cases negative with
  | false => exact simpleValue?_digit digit (ds ++ cs)
  | true => exact simpleValue?_minus digit (ds ++ cs)

theorem value?_simple (notList : c ≠ '[') (notObject : c ≠ '\x7b') :
    value? (fuel + 1) depth (c :: cs) = simpleValue? (c :: cs) := by
  unfold value?
  split
  · next same => exact absurd (List.cons.inj same).1 notList
  · next same => exact absurd (List.cons.inj same).1 notObject
  · next same => exact absurd (List.cons.inj same).1 notList
  · next same => exact absurd (List.cons.inj same).1 notObject
  · rfl

/-- A text is read as a value, whatever stands behind it that closes the value, if this is within the bounds. -/
def Reads (t : List Char) (v : Json) : Prop := ∀ (fuel depth : Nat) (rest : List Char), t.length ≤ fuel → Closes rest →
  value? fuel depth (t ++ rest) = if v.isWithin depth then some (merged v, rest) else none

theorem reads_simple (first : t = c :: cs) (notList : c ≠ '[') (notObject : c ≠ '\x7b')
    (read : ∀ depth rest, Closes rest →
      simpleValue? (t ++ rest) = if v.isWithin depth then some (merged v, rest) else none) : Reads t v := by
  intro fuel depth rest size closes
  subst first
  obtain ⟨fuel, rfl⟩ := Nat.exists_eq_succ_of_ne_zero (Nat.ne_zero_of_lt size)
  rw [← read depth rest closes]
  exact value?_simple notList notObject

theorem reads_name : ∀ f ∈ names, Reads f.1.toList f.2 := by
  intro f hf
  simp only [names, List.mem_cons, List.not_mem_nil, or_false] at hf
  obtain rfl | rfl | rfl | rfl | rfl | rfl := hf <;>
    exact reads_simple rfl (by decide) (by decide) fun depth _ _ => by cases depth <;> rfl

theorem reads_whole (negative : Bool) (n : Nat) :
    Reads (minus negative ++ n.repr.toList) (.whole (if negative then -n else n)) := by
  obtain ⟨c, cs, first, numeric⟩ := number_eq_cons negative n
  refine reads_simple first (ne_of_numeric numeric rfl (by decide)) (ne_of_numeric numeric rfl (by decide))
    fun depth rest closes => ?_
  rw [List.append_assoc, simpleValue?_number, unsignedNumber?_whole negative n closes.stops, isWithin_whole]
  have size : (if negative then -(n : Int) else n).natAbs = n := by cases negative <;> simp
  simp only [size, decide_eq_true_iff, ← Nat.not_lt, ite_not]
  rfl

theorem reads_real (negative : Bool) (n : Nat) {places ds ps : List Char} {e : Int} (fraction : SpellsPlaces places ds)
    (exponent : SpellsPower ps e) (marked : places ≠ [] ∨ ps ≠ []) :
    Reads (minus negative ++ n.repr.toList ++ places ++ ps)
      (.real (decimalDouble negative (digitsValue (n.repr.toList ++ ds)) (e - ds.length))) := by
  obtain ⟨c, cs, first, numeric⟩ := number_eq_cons negative n
  refine reads_simple (by rw [first]; rfl) (ne_of_numeric numeric rfl (by decide))
    (ne_of_numeric numeric rfl (by decide)) fun depth rest closes => ?_
  simp only [List.append_assoc, simpleValue?_number]
  rw [unsignedNumber?_real negative n fraction exponent marked closes.stops, isWithin_real, if_pos rfl]
  rfl

theorem reads_text {body : List Char} (chars : SpellsChars body t) :
    Reads ('"' :: (body ++ ['"'])) (.text (String.ofList t)) := by
  refine reads_simple rfl (by decide) (by decide) fun depth rest _ => ?_
  have within : (Json.text (String.ofList t)).isWithin depth = true := by cases depth <;> rfl
  have read := stringBody_of_spells chars ((body ++ '"' :: rest).length + 1) [] rest (by simp)
  rw [within, if_pos rfl, List.cons_append, List.append_assoc, List.singleton_append, simpleValue?, read]
  rfl

/-! ## Parts -/

/-- What stands behind a part: the end, or a comma and the other parts. -/
def behind (parts : List Part) (rest : List Char) : List Char :=
  match parts with
  | [] => rest
  | p :: ps => ',' :: (joined (p :: ps) ++ rest)

theorem joined_cons (p : Part) (ps : List Part) (rest : List Char) :
    joined (p :: ps) ++ rest = p.lead ++ (p.text ++ (p.trail ++ behind ps rest)) := by
  cases ps <;> simp [joined, behind]

theorem closes_behind (close : c = ']' ∨ c = '\x7d') (parts : List Part) (rest : List Char) :
    Closes (behind parts (c :: rest)) := by
  cases parts with
  | nil => exact closes_cons (.inr close) rest
  | cons p ps => exact closes_cons (.inl rfl) _

theorem skipBlank_behind (close : c = ']' ∨ c = '\x7d') (parts : List Part) (rest : List Char) :
    skipBlank (behind parts (c :: rest)) = behind parts (c :: rest) := by
  cases parts with
  | nil => rcases close with rfl | rfl <;> rfl
  | cons p ps => rfl

theorem length_joined (p : Part) (ps : List Part) :
    (joined (p :: ps)).length = p.lead.length + (p.text.length + (p.trail.length + (behind ps []).length)) := by
  rw [← List.append_nil (joined (p :: ps)), joined_cons]
  simp only [List.length_append]

theorem length_behind_cons (p : Part) (ps : List Part) :
    (behind (p :: ps) []).length = (joined (p :: ps)).length + 1 := by
  rw [behind, List.append_nil, List.length_cons]

/-- A part is read up to what stands behind it. -/
structure Part.Readable (p : Part) : Prop where
  begins : Begins p.text
  reads : Reads p.text p.value
  trail : Blanks p.trail

/-! ## Lists -/

theorem items?_succ : items? (fuel + 1) depth acc cs =
    match value? fuel depth cs with
    | none => none
    | some (item, rest) =>
      match skipBlank rest with
      | ',' :: more => items? fuel depth (item :: acc) (skipBlank more)
      | ']' :: after => some (.list (item :: acc).reverse, after)
      | _ => none := rfl

theorem items?_of_parts {parts : List Part} (depth : Nat) (given : parts ≠ []) (leads : ∀ p ∈ parts, Blanks p.lead)
    (each : ∀ p ∈ parts, p.Readable) (rest : List Char) :
    ∀ (fuel : Nat) (acc : List Json), (joined parts).length < fuel →
      items? fuel depth acc (skipBlank (joined parts ++ ']' :: rest)) =
        if parts.all (isWithin depth ·.value) then some (.list (acc.reverse ++ parts.map (merged ·.value)), rest)
        else none := by
  induction parts with
  | nil => exact absurd rfl given
  | cons p ps ih =>
    intro fuel acc size
    obtain ⟨fuel, rfl⟩ := Nat.exists_eq_succ_of_ne_zero (Nat.ne_zero_of_lt size)
    rw [length_joined] at size
    obtain ⟨lead, leads⟩ := List.forall_mem_cons.mp leads
    obtain ⟨⟨begins, reads, trail⟩, each⟩ := List.forall_mem_cons.mp each
    have first := reads fuel depth (p.trail ++ behind ps (']' :: rest)) (by omega)
      (closes_append trail (closes_behind (.inl rfl) ps rest))
    rw [joined_cons, skipBlank_append lead, (begins.append _).skipBlank, items?_succ, first, List.all_cons]
    by_cases within : p.value.isWithin depth = true
    · simp only [within, if_true, Bool.true_and, skipBlank_append trail, skipBlank_behind (.inl rfl)]
      cases ps with
      | nil => simp [behind]
      | cons q qs =>
        rw [length_behind_cons] at size
        have others := ih (List.cons_ne_nil q qs) leads each fuel (merged p.value :: acc) (by omega)
        rw [reverse_cons_append] at others
        exact others
    · simp only [within, Bool.false_eq_true, if_false, Bool.false_and]

/-! ## Objects -/

theorem key?_of_introduces {lead : List Char} (h : Introduces lead key) (begins : Begins cs) :
    key? (skipBlank (lead ++ cs)) = some (key, cs) := by
  obtain ⟨before, body, t, middle, after, rfl, chars, rfl, blank, blank', blank''⟩ := h
  have read := stringBody_of_spells chars ((body ++ '"' :: (middle ++ ':' :: (after ++ cs))).length + 1) []
    (middle ++ ':' :: (after ++ cs)) (by simp)
  simp only [List.append_assoc, List.cons_append]
  rw [skipBlank_append blank, skipBlank_cons rfl, key?, read]
  simp only [skipBlank_append blank', skipBlank_cons (rfl : isBlank ':' = false), skipBlank_append blank'',
    begins.skipBlank]
  rfl

theorem fields?_succ {acc : Fields} : fields? (fuel + 1) depth acc cs =
    match key? cs with
    | none => none
    | some (key, rest) =>
      match value? fuel depth rest with
      | none => none
      | some (item, rest) =>
        let acc := insertField acc key item
        match skipBlank rest with
        | ',' :: more => fields? fuel depth acc (skipBlank more)
        | '\x7d' :: after => some (.object acc, after)
        | _ => none := rfl

theorem fields?_of_parts {fields : List (String × Part)} (depth : Nat) (given : fields ≠ [])
    (leads : ∀ f ∈ fields, Introduces f.2.lead f.1) (each : ∀ f ∈ fields, f.2.Readable) (rest : List Char) :
    ∀ (fuel : Nat) (acc : Fields), (joined (fields.map (·.2))).length < fuel →
      fields? fuel depth acc (skipBlank (joined (fields.map (·.2)) ++ '\x7d' :: rest)) =
        if fields.all (isWithin depth ·.2.value) then
          some (.object (mergeFields acc (fields.map fun f => (f.1, merged f.2.value))), rest)
        else none := by
  induction fields with
  | nil => exact absurd rfl given
  | cons f fs ih =>
    intro fuel acc size
    obtain ⟨key, p⟩ := f
    obtain ⟨fuel, rfl⟩ := Nat.exists_eq_succ_of_ne_zero (Nat.ne_zero_of_lt size)
    rw [List.map_cons, length_joined] at size
    obtain ⟨lead, leads⟩ := List.forall_mem_cons.mp leads
    obtain ⟨⟨begins, reads, trail⟩, each⟩ := List.forall_mem_cons.mp each
    dsimp only at size lead begins reads trail
    have first := reads fuel depth (p.trail ++ behind (fs.map (·.2)) ('\x7d' :: rest)) (by omega)
      (closes_append trail (closes_behind (.inr rfl) _ rest))
    rw [List.map_cons, joined_cons, fields?_succ, key?_of_introduces lead (begins.append _)]
    simp only [first, List.all_cons]
    by_cases within : p.value.isWithin depth = true
    · simp only [within, if_true, Bool.true_and, skipBlank_append trail, skipBlank_behind (.inr rfl)]
      cases fs with
      | nil => simp [behind, mergeFields]
      | cons g gs =>
        rw [List.map_cons, length_behind_cons] at size
        exact ih (List.cons_ne_nil g gs) leads each fuel (insertField acc key (merged p.value)) (by
          rw [List.map_cons]
          omega)
    · simp only [within, Bool.false_eq_true, if_false, Bool.false_and]

/-! ## All values -/

theorem value?_list : value? (fuel + 1) (depth + 1) ('[' :: cs) =
    match skipBlank cs with
    | ']' :: after => some (.list [], after)
    | more => items? fuel depth [] more := rfl

theorem value?_items (begins : Begins (skipBlank cs)) :
    value? (fuel + 1) (depth + 1) ('[' :: cs) = items? fuel depth [] (skipBlank cs) := by
  obtain ⟨c, more, first, -, notEnd, -⟩ := begins
  rw [value?_list, first]
  split
  · next same => exact absurd (List.cons.inj same).1 notEnd
  · rfl

theorem value?_object : value? (fuel + 1) (depth + 1) ('\x7b' :: cs) =
    match skipBlank cs with
    | '\x7d' :: after => some (.object [], after)
    | more => fields? fuel depth [] more := rfl

theorem value?_fields (begins : Begins (skipBlank cs)) :
    value? (fuel + 1) (depth + 1) ('\x7b' :: cs) = fields? fuel depth [] (skipBlank cs) := by
  obtain ⟨c, more, first, -, -, notEnd⟩ := begins
  rw [value?_object, first]
  split
  · next same => exact absurd (List.cons.inj same).1 notEnd
  · rfl

theorem isWithin_list (items : List Json) :
    (Json.list items).isWithin (depth + 1) = items.all (isWithin depth) := by
  rw [← areWithin_eq_all]
  rfl

theorem isWithin_object (fields : Fields) :
    (Json.object fields).isWithin (depth + 1) = fields.all fun f => isWithin depth f.2 := by
  rw [← fieldsWithin_eq_all]
  rfl

theorem merged_list (items : List Json) : merged (.list items) = .list (items.map merged) := by
  rw [merged, mergedItems_eq_map]

theorem merged_object (fields : Fields) :
    merged (.object fields) = .object (mergeFields [] (fields.map fun f => (f.1, merged f.2))) := by
  rw [merged, mergedFields_eq_map]

theorem reads_emptyList (blank : Blanks cs) : Reads ('[' :: (cs ++ [']'])) (.list []) := by
  intro fuel depth rest size _
  obtain ⟨fuel, rfl⟩ := Nat.exists_eq_succ_of_ne_zero (Nat.ne_zero_of_lt size)
  cases depth with
  | zero => rfl
  | succ depth =>
    rw [List.cons_append, List.append_assoc, value?_list, skipBlank_append blank]
    rfl

theorem reads_emptyObject (blank : Blanks cs) : Reads ('\x7b' :: (cs ++ ['\x7d'])) (.object []) := by
  intro fuel depth rest size _
  obtain ⟨fuel, rfl⟩ := Nat.exists_eq_succ_of_ne_zero (Nat.ne_zero_of_lt size)
  cases depth with
  | zero => rfl
  | succ depth =>
    rw [List.cons_append, List.append_assoc, value?_object, skipBlank_append blank]
    rfl

/-- What stands between brackets leaves fuel for them. -/
theorem length_inner {opening close : Char} (size : (opening :: (cs ++ [close])).length ≤ fuel + 1) :
    cs.length < fuel := by
  rw [List.length_cons, List.length_append, List.length_singleton] at size
  omega

theorem reads_list {parts : List Part} (given : parts ≠ []) (leads : ∀ p ∈ parts, Blanks p.lead)
    (each : ∀ p ∈ parts, p.Readable) : Reads ('[' :: (joined parts ++ [']'])) (.list (parts.map (·.value))) := by
  intro fuel depth rest size _
  obtain ⟨fuel, rfl⟩ := Nat.exists_eq_succ_of_ne_zero (Nat.ne_zero_of_lt size)
  cases depth with
  | zero => rfl
  | succ depth =>
    have begins : Begins (skipBlank (joined parts ++ ']' :: rest)) := by
      obtain ⟨p, ps, rfl⟩ := List.exists_cons_of_ne_nil given
      have begins := (each p List.mem_cons_self).begins.append (p.trail ++ behind ps (']' :: rest))
      rwa [joined_cons, skipBlank_append (leads p List.mem_cons_self), begins.skipBlank]
    rw [List.cons_append, List.append_assoc, List.singleton_append, value?_items begins,
      items?_of_parts depth given leads each rest fuel [] (length_inner size), isWithin_list, List.all_map,
      merged_list, List.map_map]
    rfl

theorem reads_object {fields : List (String × Part)} (given : fields ≠ [])
    (leads : ∀ f ∈ fields, Introduces f.2.lead f.1) (each : ∀ f ∈ fields, f.2.Readable) :
    Reads ('\x7b' :: (joined (fields.map (·.2)) ++ ['\x7d'])) (.object (fields.map fun f => (f.1, f.2.value))) := by
  intro fuel depth rest size _
  obtain ⟨fuel, rfl⟩ := Nat.exists_eq_succ_of_ne_zero (Nat.ne_zero_of_lt size)
  cases depth with
  | zero => rfl
  | succ depth =>
    have begins : Begins (skipBlank (joined (fields.map (·.2)) ++ '\x7d' :: rest)) := by
      obtain ⟨f, fs, rfl⟩ := List.exists_cons_of_ne_nil given
      obtain ⟨before, body, t, middle, after, lead, -, -, blank, -, -⟩ := leads f List.mem_cons_self
      rw [List.map_cons, joined_cons, lead, List.append_assoc, skipBlank_append blank]
      exact ⟨'"', _, rfl, rfl, by decide, by decide⟩
    rw [List.cons_append, List.append_assoc, List.singleton_append, value?_fields begins,
      fields?_of_parts depth given leads each rest fuel [] (length_inner size), isWithin_object, List.all_map,
      merged_object, List.map_map]
    rfl

/-- A text that spells a value is read as it. -/
theorem reads_of_spells (h : Spells t v) : Reads t v := by
  induction h with
  | name named => exact reads_name _ named
  | whole n =>
    obtain ⟨negative, k, text, rfl⟩ := exists_sign n
    rw [text]
    exact reads_whole negative k
  | minusZero => exact reads_whole true 0
  | real negative n fraction exponent marked => exact reads_real negative n fraction exponent marked
  | text chars => exact reads_text chars
  | emptyList blank => exact reads_emptyList blank
  | list given leads trails each ih =>
    exact reads_list given leads fun p hp => ⟨(each p hp).begins, ih p hp, trails p hp⟩
  | emptyObject blank => exact reads_emptyObject blank
  | object given leads trails each ih =>
    exact reads_object given leads fun f hf => ⟨(each f hf).begins, ih f hf, trails f hf⟩

end VectorGraph.Json
