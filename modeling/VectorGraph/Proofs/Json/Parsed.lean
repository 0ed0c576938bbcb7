import VectorGraph.Proofs.Json.Values

/-!
What is read of a text spells a value.

What the reader takes of a text spells a value within its bounds (`faithful`): what it takes of a list or an object are
the parts of one, blanks in front of a part being counted to it. Together with the reading of what is spelled, this says
of whole texts which are read and as what: those that spell a value within the bounds, as this value, in which of equal
keys the last one counts (`parse_of_isText`, `parse_eq_some_iff`).
-/
namespace VectorGraph.Json

variable {fuel depth : Nat} {cs t rest : List Char} {s key : String} {v w : Json}

/-- What a reader took of a text spells a value within the bounds, and this is the value that it gave. -/
def Spelled (depth : Nat) (cs : List Char) (w : Json) (rest : List Char) : Prop :=
  ∃ t v, cs = t ++ rest ∧ Spells t v ∧ v.isWithin depth = true ∧ merged v = w

theorem spelled_name {name : String} (named : (name, v) ∈ names) (h : cs = name.toList ++ rest) (depth : Nat) :
    Spelled depth cs v rest := by
  refine ⟨name.toList, v, h, .name named, ?_⟩
  simp only [names, List.mem_cons, List.not_mem_nil, or_false, Prod.mk.injEq] at named
  obtain ⟨-, rfl⟩ | ⟨-, rfl⟩ | ⟨-, rfl⟩ | ⟨-, rfl⟩ | ⟨-, rfl⟩ | ⟨-, rfl⟩ := named <;>
    exact ⟨by cases depth <;> rfl, rfl⟩

theorem spelled_dropWord? {name : String} (named : (name, v) ∈ names)
    (h : (dropWord? name.toList cs).map (v, ·) = some (w, rest)) (depth : Nat) : Spelled depth cs w rest := by
  obtain ⟨after, dropped, same⟩ := Option.map_eq_some_iff.mp h
  obtain ⟨rfl, rfl⟩ := Prod.mk.inj same
  exact spelled_name named (dropWord?_eq_some.mp dropped) depth

theorem spelled_simpleValue? (h : simpleValue? cs = some (w, rest)) (depth : Nat) : Spelled depth cs w rest := by
  unfold simpleValue? at h
  split at h
  · obtain ⟨⟨s, after⟩, read, same⟩ := Option.map_eq_some_iff.mp h
    obtain ⟨rfl, rfl⟩ := Prod.mk.inj same
    obtain ⟨body, t, rfl, chars, rfl⟩ := spells_of_stringBody read
    exact ⟨'"' :: (body ++ ['"']), _, by simp, .text chars, by cases depth <;> rfl, rfl⟩
  · split at h
    · next dropped =>
      obtain ⟨rfl, rfl⟩ := Prod.mk.inj (Option.some.inj h)
      rw [dropWord?_eq_some.mp dropped]
      have named : ("-Infinity", Json.real (-1.0 / 0.0)) ∈ names := by simp [names]
      exact spelled_name named rfl depth
    · obtain ⟨text, rfl, spells, merged, within⟩ := spells_of_unsignedNumber? h
      exact ⟨'-' :: text, _, rfl, spells, within depth, merged⟩
  · simp only [Option.orElse_eq_orElse, Option.orElse_eq_or, Option.or_eq_some_iff] at h
    obtain h | ⟨-, h | ⟨-, h | ⟨-, h | ⟨-, h | ⟨-, h⟩⟩⟩⟩⟩ := h
    · exact spelled_dropWord? (by simp [names]) h depth
    · exact spelled_dropWord? (by simp [names]) h depth
    · exact spelled_dropWord? (by simp [names]) h depth
    · exact spelled_dropWord? (by simp [names]) h depth
    · exact spelled_dropWord? (by simp [names]) h depth
    · obtain ⟨text, rfl, spells, merged, within⟩ := spells_of_unsignedNumber? h
      exact ⟨text, _, rfl, spells, within depth, merged⟩

/-- Whatever the reader takes spells the value that it gives. -/
def Faithful (fuel : Nat) : Prop := ∀ {depth : Nat} {cs rest : List Char} {w : Json},
  value? fuel depth cs = some (w, rest) → Spelled depth cs w rest

/-! ## Parts -/

/-- A part that the reader took. -/
structure Part.Taken (depth : Nat) (p : Part) : Prop where
  trail : Blanks p.trail
  spells : Spells p.text p.value
  within : p.value.isWithin depth = true

/-- What the reader takes of a value and of the blanks behind it is a part. -/
theorem exists_part (faithful : Faithful fuel) (read : value? fuel depth cs = some (w, rest)) (lead : List Char) :
    ∃ p : Part, p.lead = lead ∧ cs = p.text ++ (p.trail ++ skipBlank rest) ∧ p.Taken depth ∧ merged p.value = w := by
  obtain ⟨t, v, rfl, spells, within, merged⟩ := faithful read
  obtain ⟨trail, blank, same⟩ := exists_skipBlank rest
  exact ⟨⟨lead, t, trail, v⟩, rfl, by rw [← same], ⟨blank, spells, within⟩, merged⟩

theorem behind_of_ne_nil {parts : List Part} (given : parts ≠ []) (rest : List Char) :
    behind parts rest = ',' :: (joined parts ++ rest) := by
  obtain ⟨p, ps, rfl⟩ := List.exists_cons_of_ne_nil given
  rfl

/-! ## Lists -/

/-- What is read as items is a list of parts, blanks in front being the lead of the first. -/
theorem parts_of_items? : ∀ {fuel : Nat} {acc : List Json} {cs lead : List Char}, (∀ f < fuel, Faithful f) →
    items? fuel depth acc cs = some (w, rest) → Blanks lead →
    ∃ parts, parts ≠ [] ∧ lead ++ cs = joined parts ++ ']' :: rest ∧ (∀ p ∈ parts, Blanks p.lead) ∧
      (∀ p ∈ parts, p.Taken depth) ∧ w = .list (acc.reverse ++ parts.map (merged ·.value)) := by
  intro fuel
  induction fuel with
  | zero => nofun
  | succ fuel ih =>
    intro acc cs lead faithful h blank
    rw [items?_succ] at h
    split at h
    · cases h
    · next item more read =>
      obtain ⟨p, rfl, rfl, taken, rfl⟩ := exists_part (faithful fuel (Nat.lt_succ_self fuel)) read lead
      split at h
      · next others next =>
        obtain ⟨lead, blank', same⟩ := exists_skipBlank others
        obtain ⟨parts, given, text, leads, each, rfl⟩ := ih (fun f hf => faithful f (Nat.lt_succ_of_lt hf)) h blank'
        refine ⟨p :: parts, List.cons_ne_nil _ _, ?_, List.forall_mem_cons.mpr ⟨blank, leads⟩,
          List.forall_mem_cons.mpr ⟨taken, each⟩, ?_⟩
        · rw [joined_cons, behind_of_ne_nil given, ← text, ← same, next]
        · rw [reverse_cons_append, List.map_cons]
      · next after next =>
        obtain ⟨rfl, rfl⟩ := Prod.mk.inj (Option.some.inj h)
        refine ⟨[p], List.cons_ne_nil _ _, ?_, List.forall_mem_singleton.mpr blank,
          List.forall_mem_singleton.mpr taken, ?_⟩
        · rw [joined_cons, behind, next]
        · rw [List.reverse_cons, List.map_singleton]
      · cases h

/-! ## Objects -/

theorem introduces_of_key? {lead : List Char} (h : key? cs = some (key, rest)) (blank : Blanks lead) :
    ∃ intro, lead ++ cs = intro ++ rest ∧ Introduces intro key := by
  unfold key? at h
  split at h
  · split at h
    · next s more read =>
      obtain ⟨body, t, rfl, chars, rfl⟩ := spells_of_stringBody read
      split at h
      · next others next =>
        obtain ⟨rfl, rfl⟩ := Prod.mk.inj (Option.some.inj h)
        obtain ⟨middle, blank', same⟩ := exists_skipBlank more
        obtain ⟨after, blank'', same'⟩ := exists_skipBlank others
        refine ⟨lead ++ '"' :: (body ++ '"' :: (middle ++ ':' :: after)), ?_,
          lead, body, t, middle, after, rfl, chars, rfl, blank, blank', blank''⟩
        have text : more = middle ++ ':' :: (after ++ skipBlank others) := by rw [← same', ← next, ← same]
        rw [text]
        simp only [List.append_assoc, List.cons_append]
      · cases h
    · cases h
  · cases h

/-- What is read as fields is a list of parts with keys, each key being in the lead of its part. -/
theorem parts_of_fields? : ∀ {fuel : Nat} {acc : Fields} {cs lead : List Char}, (∀ f < fuel, Faithful f) →
    fields? fuel depth acc cs = some (w, rest) → Blanks lead →
    ∃ fields : List (String × Part), fields ≠ [] ∧ lead ++ cs = joined (fields.map (·.2)) ++ '\x7d' :: rest ∧
      (∀ f ∈ fields, Introduces f.2.lead f.1) ∧ (∀ f ∈ fields, f.2.Taken depth) ∧
      w = .object (mergeFields acc (fields.map fun f => (f.1, merged f.2.value))) := by
  intro fuel
  induction fuel with
  | zero => nofun
  | succ fuel ih =>
    intro acc cs lead faithful h blank
    rw [fields?_succ] at h
    split at h
    · cases h
    · next key more named =>
      obtain ⟨lead', same', introduces⟩ := introduces_of_key? named blank
      rw [same']
      split at h
      · cases h
      · next item more read =>
        obtain ⟨p, rfl, rfl, taken, rfl⟩ := exists_part (faithful fuel (Nat.lt_succ_self fuel)) read lead'
        dsimp only at h
        split at h
        · next others next =>
          -- Behind a comma the fuel is less, and the blanks that were skipped are the lead of the next part.
          obtain ⟨lead, blank', same⟩ := exists_skipBlank others
          obtain ⟨fields, given, text, leads, each, rfl⟩ :=
            ih (fun f hf => faithful f (Nat.lt_succ_of_lt hf)) h blank'
          refine ⟨(key, p) :: fields, List.cons_ne_nil _ _, ?_, List.forall_mem_cons.mpr ⟨introduces, leads⟩,
            List.forall_mem_cons.mpr ⟨taken, each⟩, rfl⟩
          rw [List.map_cons, joined_cons, behind_of_ne_nil (mt List.map_eq_nil_iff.mp given), ← text, ← same, next]
        · next after next =>
          obtain ⟨rfl, rfl⟩ := Prod.mk.inj (Option.some.inj h)
          refine ⟨[(key, p)], List.cons_ne_nil _ _, ?_, List.forall_mem_singleton.mpr introduces,
            List.forall_mem_singleton.mpr taken, rfl⟩
          rw [List.map_singleton, joined_cons, behind, next]
        · cases h

/-! ## All values -/

theorem spelled_list (lower : ∀ f < fuel, Faithful f) (h : value? (fuel + 1) depth ('[' :: cs) = some (w, rest)) :
    Spelled depth ('[' :: cs) w rest := by
  cases depth with
  | zero => cases h
  | succ depth =>
    obtain ⟨lead, blank, same⟩ := exists_skipBlank cs
    rw [value?_list] at h
    split at h
    · next after next =>
      obtain ⟨rfl, rfl⟩ := Prod.mk.inj (Option.some.inj h)
      refine ⟨'[' :: (lead ++ [']']), .list [], ?_, .emptyList blank, rfl, rfl⟩
      rw [same, next, List.cons_append, List.append_assoc, List.singleton_append]
    · obtain ⟨parts, given, text, leads, each, rfl⟩ := parts_of_items? lower h blank
      refine ⟨'[' :: (joined parts ++ [']']), _, ?_,
        .list given leads (fun p hp => (each p hp).trail) fun p hp => (each p hp).spells, ?_, ?_⟩
      · rw [same, text, List.cons_append, List.append_assoc, List.singleton_append]
      · rw [isWithin_list, List.all_map, List.all_eq_true]
        exact fun p hp => (each p hp).within
      · rw [merged_list, List.map_map]
        rfl

theorem spelled_object (lower : ∀ f < fuel, Faithful f)
    (h : value? (fuel + 1) depth ('\x7b' :: cs) = some (w, rest)) : Spelled depth ('\x7b' :: cs) w rest := by
  cases depth with
  | zero => cases h
  | succ depth =>
    obtain ⟨lead, blank, same⟩ := exists_skipBlank cs
    rw [value?_object] at h
    split at h
    · next after next =>
      obtain ⟨rfl, rfl⟩ := Prod.mk.inj (Option.some.inj h)
      refine ⟨'\x7b' :: (lead ++ ['\x7d']), .object [], ?_, .emptyObject blank, rfl, rfl⟩
      rw [same, next, List.cons_append, List.append_assoc, List.singleton_append]
    · obtain ⟨fields, given, text, leads, each, rfl⟩ := parts_of_fields? lower h blank
      refine ⟨'\x7b' :: (joined (fields.map (·.2)) ++ ['\x7d']), _, ?_,
        .object given leads (fun f hf => (each f hf).trail) fun f hf => (each f hf).spells, ?_, ?_⟩
      · rw [same, text, List.cons_append, List.append_assoc, List.singleton_append]
      · rw [isWithin_object, List.all_map, List.all_eq_true]
        exact fun f hf => (each f hf).within
      · rw [merged_object, List.map_map]
        rfl

theorem faithful (fuel : Nat) : Faithful fuel := by
  induction fuel using Nat.strongRecOn with
  | ind fuel ih =>
    intro depth cs rest w h
    cases fuel with
    | zero => cases h
    | succ fuel =>
      have lower : ∀ f < fuel, Faithful f := fun f hf => ih f (Nat.lt_succ_of_lt hf)
      cases cs with
      | nil =>
        have nothing : value? (fuel + 1) depth [] = none := by cases depth <;> rfl
        rw [nothing] at h
        cases h
      | cons c cs =>
        by_cases list : c = '['
        · subst list
          exact spelled_list lower h
        by_cases object : c = '\x7b'
        · subst object
          exact spelled_object lower h
        · rw [value?_simple list object] at h
          exact spelled_simpleValue? h depth

/-! ## Whole texts -/

/-- A text that spells a value is read if this is within the bounds of the reader, and as this value. -/
theorem parse_of_isText (h : IsText s v) : parse s = if v.isWithin maxDepth then some (merged v) else none := by
  obtain ⟨before, t, after, text, blank, blank', spells⟩ := h
  have size : t.length ≤ s.toList.length + 1 := by
    rw [text, List.length_append, List.length_append]
    omega
  have front : skipBlank s.toList = t ++ after := by
    rw [text, skipBlank_append blank, (spells.begins.append after).skipBlank]
  have closes : Closes after := List.append_nil after ▸ closes_append blank' closes_nil
  have back : skipBlank after = [] := List.dropWhile_eq_nil_iff.mpr blank'
  simp only [parse, front, reads_of_spells spells _ maxDepth after size closes]
  by_cases within : v.isWithin maxDepth = true
  · simp only [within, if_true, back, List.isEmpty_nil]
  · simp only [within, Bool.false_eq_true, if_false]

/-- What is read spells a value within the bounds of the reader. -/
theorem isText_of_parse (h : parse s = some w) : ∃ v, IsText s v ∧ v.isWithin maxDepth = true ∧ merged v = w := by
  unfold parse at h
  dsimp only at h
  split at h
  · next value rest read =>
    split at h
    · next none =>
      obtain ⟨t, v, same, spells, within, merged⟩ := faithful _ read
      obtain ⟨before, blank, front⟩ := exists_skipBlank s.toList
      obtain ⟨after, blank', back⟩ := exists_skipBlank rest
      rw [List.isEmpty_iff.mp none, List.append_nil] at back
      refine ⟨v, ⟨before, t, rest, by rw [← same, ← front], blank, back ▸ blank', spells⟩, within, ?_⟩
      rw [merged]
      exact Option.some.inj h
    · cases h
  · cases h

/-- A text is read exactly if it spells a value within the bounds of the reader, and as this value with equal keys
merged. -/
theorem parse_eq_some_iff : parse s = some w ↔ ∃ v, IsText s v ∧ v.isWithin maxDepth = true ∧ merged v = w := by
  refine ⟨isText_of_parse, ?_⟩
  rintro ⟨v, isText, within, rfl⟩
  rw [parse_of_isText isText, if_pos within]

end VectorGraph.Json
