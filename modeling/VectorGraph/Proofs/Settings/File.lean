import VectorGraph.Proofs.Json.Parsed
import VectorGraph.Settings.File

/-!
Settings and their files.

What a file says of a setting is said on its text: it holds an object if it is a text in UTF-8 that spells one within
the bounds of the reader (`Holds`), and what stands under a name is the last value that the object has there
(`lastUnder?`). Settings are judged one by one (`judged`), so that nothing in such a file has a say in a setting but
what stands under its name (`toFields_load`). A file that was saved is one that holds the settings
(`holds_saveBytes?`), and is read back by the same rule.
-/
namespace VectorGraph

namespace Json

/-! ## Keys that repeat -/

theorem field?_append (fields more : Fields) (name : String) :
    field? (fields ++ more) name = (field? fields name).or (field? more name) := by
  rw [field?, List.find?_append, Option.map_or, ← field?, ← field?]

theorem field?_cons (f : String × Json) (fields : Fields) (name : String) :
    field? (f :: fields) name = if f.1 = name then some f.2 else field? fields name := by
  rw [field?, List.find?_cons]
  split
  · next same => rw [if_pos (beq_iff_eq.mp same), Option.map_some]
  · next other => rw [if_neg (beq_eq_false_iff_ne.mp other), field?]

/-- Setting a key in its place changes what stands under it, and nothing else. -/
theorem field?_replaced (fields : Fields) (key name : String) (value : Json) :
    field? (fields.map fun f => if f.1 == key then (key, value) else f) name =
      if key = name ∧ fields.any (·.1 == key) then some value else field? fields name := by
  induction fields with
  | nil => simp [field?]
  | cons f fields ih =>
    rw [List.map_cons, field?_cons, ih, field?_cons, List.any_cons]
    by_cases here : f.1 = key
    · subst here
      by_cases same : f.1 = name <;> simp [same]
    · by_cases same : key = name
      · subst same
        simp only [here, if_false, beq_false_of_ne here, Bool.false_or, Bool.false_eq_true]
      · simp [here, same]

theorem field?_insertField (fields : Fields) (key name : String) (value : Json) :
    field? (insertField fields key value) name = if key = name then some value else field? fields name := by
  rw [insertField]
  split
  · next known => simp only [field?_replaced, known, and_true]
  · next unknown =>
    have absent : field? fields key = none := by
      rw [field?, Option.map_eq_none_iff, List.find?_eq_none]
      exact fun f hf same => unknown (List.any_eq_true.mpr ⟨f, hf, same⟩)
    rw [field?_append, field?_cons]
    split
    · next same => rw [← same, absent, Option.none_or]
    · exact Option.or_none

/-- The value that stands last under a name. -/
def lastUnder? (fields : Fields) (name : String) : Option Json := field? fields.reverse name

theorem field?_mergeFields (updates : Fields) (name : String) : ∀ fields,
    field? (mergeFields fields updates) name = (lastUnder? updates name).or (field? fields name) := by
  induction updates with
  | nil => exact fun fields => rfl
  | cons f updates ih =>
    intro fields
    obtain ⟨key, value⟩ := f
    have merge := ih (insertField fields key value)
    rw [mergeFields, List.foldl_cons, ← mergeFields, merge, field?_insertField]
    rw [lastUnder?, lastUnder?, List.reverse_cons, field?_append, field?_cons, Option.or_assoc]
    split <;> rfl

theorem lastUnder?_map (g : Json → Json) (fields : Fields) (name : String) :
    lastUnder? (fields.map fun f => (f.1, g f.2)) name = (lastUnder? fields name).map g := by
  rw [lastUnder?, lastUnder?, ← List.map_reverse]
  induction fields.reverse with
  | nil => rfl
  | cons f fields ih =>
    rw [List.map_cons, field?_cons, field?_cons, ih]
    split <;> rfl

end Json

namespace Settings

open Json

variable {s t : Settings} {bytes : Option ByteArray} {fields : Fields} {path : String}

/-! ## What a file holds -/

/-- A file holds the fields of an object: it is a text in UTF-8 that spells the object, and this is within the bounds of
the reader. -/
structure Holds (bytes : Option ByteArray) (fields : Fields) : Prop where
  spelled : ∃ text : String, bytes = some text.toUTF8 ∧ IsText text (.object fields)
  within : (Json.object fields).isWithin maxDepth = true

/-- Whether a value has the type of a default: a truth value for a flag, and an integer for a number, which a truth
value is not. -/
def hasTypeOf (standard value : Json) : Bool :=
  match standard, value with
  | .bool _, .bool _ | .whole _, .whole _ => true
  | _, _ => false

/-- A setting as a file has it: the value that stands last under its name, if this has the type of the default, and the
default otherwise. -/
def judged (fields : Fields) (standard : String × Json) : String × Json :=
  match lastUnder? fields standard.1 with
  | some value => if hasTypeOf standard.2 value then (standard.1, value) else standard
  | none => standard

theorem wholeAt_eq (fields : Fields) (name : String) (standard : Int) :
    (name, Json.whole (wholeAt (mergeFields [] (fields.map fun f => (f.1, merged f.2))) name standard)) =
      judged fields (name, .whole standard) := by
  rw [wholeAt, field?_mergeFields, lastUnder?_map, judged]
  cases lastUnder? fields name with
  | none => rfl
  | some value => cases value <;> rfl

theorem flagAt_eq (fields : Fields) (name : String) (standard : Bool) :
    (name, Json.bool (flagAt (mergeFields [] (fields.map fun f => (f.1, merged f.2))) name standard)) =
      judged fields (name, .bool standard) := by
  rw [flagAt, field?_mergeFields, lastUnder?_map, judged]
  cases lastUnder? fields name with
  | none => rfl
  | some value => cases value <;> rfl

theorem toFields_ofFields (fields : Fields) :
    (ofFields (mergeFields [] (fields.map fun f => (f.1, merged f.2)))).toFields =
      ({} : Settings).toFields.map (judged fields) := by
  simp only [toFields, ofFields, wholeAt_eq, flagAt_eq, List.map_cons, List.map_nil]

theorem toFields_injective (h : s.toFields = t.toFields) : s = t := by
  cases s
  cases t
  simpa [toFields] using h

theorem fromUTF8?_toUTF8 (text : String) : String.fromUTF8? text.toUTF8 = some text :=
  dif_pos text.isValidUTF8

theorem eq_toUTF8_of_fromUTF8? {bytes : ByteArray} {text : String} (h : String.fromUTF8? bytes = some text) :
    bytes = text.toUTF8 := by
  rw [String.fromUTF8?] at h
  split at h
  · rw [← Option.some.inj h]
    rfl
  · cases h

/-- Where a file holds an object, every setting is judged by what stands under its name. -/
theorem toFields_load (holds : Holds bytes fields) :
    (load path bytes).1.toFields = ({} : Settings).toFields.map (judged fields) := by
  obtain ⟨⟨text, rfl, isText⟩, within⟩ := holds
  have read := parse_of_isText isText
  rw [if_pos within, merged_object] at read
  simp only [load, parseBytes, fromUTF8?_toUTF8, parse, read]
  exact toFields_ofFields fields

theorem exists_object {v : Json} (h : merged v = .object fields) : ∃ fields', v = .object fields' := by
  cases v with
  | object fields' => exact ⟨fields', rfl⟩
  | list items => rw [merged] at h; cases h
  | _ => cases h

/-- What is read as settings was held. -/
theorem exists_holds {bytes : ByteArray} (h : parseBytes bytes = .ok s) : ∃ fields, Holds (some bytes) fields := by
  unfold parseBytes at h
  split at h
  · cases h
  · next text decoded =>
    unfold parse at h
    split at h
    · cases h
    · next read =>
      obtain ⟨v, isText, within, same⟩ := isText_of_parse read
      obtain ⟨fields, rfl⟩ := exists_object same
      exact ⟨fields, ⟨text, congrArg some (eq_toUTF8_of_fromUTF8? decoded), isText⟩, within⟩
    · cases h

/-- Where a file holds no object, all settings are the defaults. -/
theorem load_eq_default (none : ∀ fields, ¬Holds bytes fields) : (load path bytes).1 = {} := by
  cases bytes with
  | none => rfl
  | some bytes =>
    rw [load]
    cases read : parseBytes bytes with
    | error fault => rfl
    | ok s =>
      obtain ⟨fields, holds⟩ := exists_holds read
      exact absurd holds (none fields)

/-! ## What is saved -/

/-- The value of a setting as it is written. -/
def valueText (value : Json) : String :=
  match value with
  | .bool b => if b then "true" else "false"
  | .whole n => toString n
  | _ => "null"

/-- What is written of fields. -/
def fileText (fields : Fields) : String := "\x7b\n" ++ ",\n".intercalate (fields.map line) ++ "\n\x7d"

theorem save?_eq (s : Settings) : s.save? =
    if s.wholes.all fun n => n.natAbs.repr.length ≤ maxDigits then some (fileText s.toFields) else none := rfl

/-- A character that stands for itself in a string. -/
def isUnescaped (c : Char) : Bool := c != '"' && c != '\\' && 0x20 ≤ c.toNat

/-- A field that is written as it is: its name needs no escapes, and its value is of a type that settings have. -/
structure Writable (f : String × Json) : Prop where
  plain : f.1.toList.all isUnescaped = true
  typed : (∃ b, f.2 = .bool b) ∨ ∃ n, f.2 = .whole n

theorem spells_valueText {value : Json} (typed : (∃ b, value = .bool b) ∨ ∃ n, value = .whole n) :
    Spells (valueText value).toList value := by
  obtain ⟨b, rfl⟩ | ⟨n, rfl⟩ := typed
  · cases b
    · exact .name (by simp [names] : ("false", Json.bool false) ∈ names)
    · exact .name (by simp [names] : ("true", Json.bool true) ∈ names)
  · exact .whole n

theorem spellsChars_self {cs : List Char} (plain : cs.all isUnescaped = true) : SpellsChars cs cs := by
  induction cs with
  | nil => exact .nil
  | cons c cs ih =>
    rw [List.all_cons, isUnescaped, Bool.and_eq_true, Bool.and_eq_true, Bool.and_eq_true, bne_iff_ne, bne_iff_ne,
      decide_eq_true_iff] at plain
    obtain ⟨⟨⟨unquoted, unescaped⟩, visible⟩, plain⟩ := plain
    exact .plain unquoted unescaped visible (ih plain)

/-- What stands before the value of a field in its line. -/
def lead (name : String) : List Char := '\n' :: ' ' :: ' ' :: '"' :: (name.toList ++ ['"', ':', ' '])

theorem introduces_lead {f : String × Json} (writable : Writable f) : Introduces (lead f.1) f.1 := by
  refine ⟨['\n', ' ', ' '], f.1.toList, f.1.toList, [], [' '], rfl, spellsChars_self writable.plain, ?_, ?_, ?_, ?_⟩
  · rw [String.ofList_toList]
  all_goals exact List.all_eq_true.mp rfl

/-- The lines of a file as parts of an object. -/
def parts (fields : Fields) : List (String × Part) :=
  match fields with
  | [] => []
  | f :: rest =>
    (f.1, ⟨lead f.1, (valueText f.2).toList, if rest.isEmpty then ['\n'] else [], f.2⟩) :: parts rest

theorem toList_line (f : String × Json) : '\n' :: (line f).toList = lead f.1 ++ (valueText f.2).toList := by
  have text : line f = "  \"" ++ f.1 ++ "\": " ++ valueText f.2 := rfl
  simp [text, lead]

theorem joined_parts (given : fields ≠ []) (rest : List Char) : joined ((parts fields).map (·.2)) ++ rest =
    '\n' :: ((",\n".intercalate (fields.map line)).toList ++ '\n' :: rest) := by
  induction fields with
  | nil => exact absurd rfl given
  | cons f fs ih =>
    rw [parts, List.map_cons, joined_cons]
    cases fs with
    | nil =>
      simp only [List.isEmpty_nil, if_true, parts, List.map_nil, behind, List.map_cons, String.intercalate_singleton]
      rw [← List.append_assoc, ← toList_line]
      rfl
    | cons g gs =>
      have others := ih (List.cons_ne_nil g gs)
      rw [behind_of_ne_nil (by simp [parts]), others]
      simp only [List.isEmpty_cons, Bool.false_eq_true, if_false, List.nil_append, List.map_cons,
        String.intercalate_cons_cons, String.toList_append]
      rw [← List.append_assoc, ← toList_line]
      simp only [List.cons_append, List.append_assoc]
      rfl

theorem map_parts (fields : Fields) : (parts fields).map (fun f => (f.1, f.2.value)) = fields := by
  induction fields with
  | nil => rfl
  | cons f fs ih => rw [parts, List.map_cons, ih]

theorem exists_of_mem_parts {p : String × Part} (h : p ∈ parts fields) :
    ∃ f ∈ fields, ∃ trail, Blanks trail ∧ p = (f.1, ⟨lead f.1, (valueText f.2).toList, trail, f.2⟩) := by
  induction fields with
  | nil => cases h
  | cons f fs ih =>
    rw [parts, List.mem_cons] at h
    rcases h with rfl | h
    · refine ⟨f, List.mem_cons_self, _, ?_, rfl⟩
      split <;> exact List.all_eq_true.mp rfl
    · obtain ⟨g, hg, part⟩ := ih h
      exact ⟨g, List.mem_cons_of_mem _ hg, part⟩

theorem isText_fileText (given : fields ≠ []) (writable : ∀ f ∈ fields, Writable f) :
    IsText (fileText fields) (.object fields) := by
  have some : parts fields ≠ [] := by
    obtain ⟨f, fs, rfl⟩ := List.exists_cons_of_ne_nil given
    exact List.cons_ne_nil _ _
  have object : Spells _ (.object ((parts fields).map fun f => (f.1, f.2.value))) := .object some
    (fun p hp => by
      obtain ⟨f, hf, trail, -, rfl⟩ := exists_of_mem_parts hp
      exact introduces_lead (writable f hf))
    (fun p hp => by
      obtain ⟨f, -, trail, blank, rfl⟩ := exists_of_mem_parts hp
      exact blank)
    fun p hp => by
      obtain ⟨f, hf, trail, -, rfl⟩ := exists_of_mem_parts hp
      exact spells_valueText (writable f hf).typed
  rw [map_parts, joined_parts given] at object
  refine ⟨[], _, [], ?_, nofun, nofun, object⟩
  simp [fileText]

theorem writable_toFields (s : Settings) : ∀ f ∈ s.toFields, Writable f := by
  have number : ∀ {name : String} (n : Int), name.toList.all isUnescaped = true → Writable (name, .whole n) :=
    fun n plain => ⟨plain, .inr ⟨n, rfl⟩⟩
  have flag : ∀ {name : String} (b : Bool), name.toList.all isUnescaped = true → Writable (name, .bool b) :=
    fun b plain => ⟨plain, .inl ⟨b, rfl⟩⟩
  simp only [toFields, List.forall_mem_cons]
  exact ⟨number _ rfl, number _ rfl, number _ rfl, number _ rfl, number _ rfl, flag _ rfl, flag _ rfl, nofun⟩

theorem holds_saveBytes? {bytes : ByteArray} (h : s.saveBytes? = some bytes) : Holds (some bytes) s.toFields := by
  obtain ⟨text, saved, rfl⟩ := Option.map_eq_some_iff.mp h
  rw [save?_eq] at saved
  split at saved
  · next short =>
    obtain rfl := Option.some.inj saved
    refine ⟨⟨_, rfl, isText_fileText (List.cons_ne_nil _ _) (writable_toFields s)⟩, ?_⟩
    rw [show maxDepth = 979 + 1 from rfl, isWithin_object]
    have flag : ∀ b, (Json.bool b).isWithin 979 = true := fun b => rfl
    simpa only [toFields, List.all_cons, isWithin_whole, flag, wholes, List.all_nil, Bool.and_true] using short
  · cases saved

theorem judged_toFields (s : Settings) : ({} : Settings).toFields.map (judged s.toFields) = s.toFields := by
  simp [toFields, judged, lastUnder?, field?_cons, hasTypeOf]

/-- Settings that were saved are loaded again. -/
theorem load_saveBytes? {bytes : ByteArray} (h : s.saveBytes? = some bytes) : (load path (some bytes)).1 = s := by
  refine toFields_injective ?_
  rw [toFields_load (holds_saveBytes? h), judged_toFields]

/-! ## Any file -/

theorem not_holds_of_parse {text : String} (refused : Json.parse text = none) (fields : Fields) :
    ¬Holds (some text.toUTF8) fields := by
  rintro ⟨⟨other, same, isText⟩, within⟩
  have decoded := congrArg String.fromUTF8? (Option.some.inj same)
  rw [fromUTF8?_toUTF8, fromUTF8?_toUTF8] at decoded
  obtain rfl := Option.some.inj decoded
  rw [parse_of_isText isText, if_pos within] at refused
  cases refused

/-- Settings survive in a file, and no file is in the way of them: what was saved is loaded again; and of any bytes, or
where there is no file, settings are loaded, each judged by what stands under its name if the file holds an object, and
the defaults if it holds none. -/
theorem load_saved_and_judged (path : String) :
    (∀ (s : Settings) (bytes : ByteArray), s.saveBytes? = some bytes → (load path (some bytes)).1 = s) ∧
      ∀ bytes : Option ByteArray,
        (∀ fields, Holds bytes fields →
          (load path bytes).1.toFields = ({} : Settings).toFields.map (judged fields)) ∧
        ((∀ fields, ¬Holds bytes fields) → (load path bytes).1 = {}) :=
  ⟨fun _ _ saved => load_saveBytes? saved, fun _ => ⟨fun _ holds => toFields_load holds, load_eq_default⟩⟩

/-- Fields two of which have the wrong type, with a name that no setting has and a name that stands twice. -/
def mixedFields : Fields :=
  [("preview_resolution", .whole 64), ("blur_steps", .bool true), ("verbose", .whole 1), ("extra", .whole 7),
    ("preview_resolution", .whole 256)]

theorem holds_mixedFields : Holds (some (fileText mixedFields).toUTF8) mixedFields := by
  refine ⟨⟨_, rfl, isText_fileText (List.cons_ne_nil _ _) ?_⟩, by decide⟩
  simp only [mixedFields, List.forall_mem_cons]
  exact ⟨⟨rfl, .inr ⟨_, rfl⟩⟩, ⟨rfl, .inl ⟨_, rfl⟩⟩, ⟨rfl, .inr ⟨_, rfl⟩⟩, ⟨rfl, .inr ⟨_, rfl⟩⟩,
    ⟨rfl, .inr ⟨_, rfl⟩⟩, nofun⟩

/-- Saved settings, fields of all sorts, and a text that is cut off. -/
theorem load_saved_and_judged_mixed :
    (∃ bytes, ({ blurSteps := 8, verbose := true } : Settings).saveBytes? = some bytes ∧
      (load "settings.json" (some bytes)).1 = { blurSteps := 8, verbose := true }) ∧
    (Holds (some (fileText mixedFields).toUTF8) mixedFields ∧
      (load "settings.json" (some (fileText mixedFields).toUTF8)).1 = { previewResolution := 256 }) ∧
    (∀ fields, ¬Holds (some "\x7bnot json".toUTF8) fields) ∧
      (load "settings.json" (some "\x7bnot json".toUTF8)).1 = {} := by
  obtain ⟨saved, any⟩ := load_saved_and_judged "settings.json"
  have written : ({ blurSteps := 8, verbose := true } : Settings).saveBytes? = some _ :=
    congrArg (Option.map _) (if_pos (by decide))
  have refused : Json.parse "\x7bnot json" = none := by decide
  refine ⟨⟨_, written, saved _ _ written⟩, ⟨holds_mixedFields, toFields_injective ?_⟩, not_holds_of_parse refused,
    (any _).2 (not_holds_of_parse refused)⟩
  rw [(any _).1 _ holds_mixedFields]
  decide

/-- An integer of more digits than are read, under a name that no setting has, beside a flag. -/
def hugeFields : Fields := [("extra", .whole (10 ^ maxDigits : Nat)), ("verbose", .bool true)]

/-- The text of such fields is that of an object, and the flag in it has the type of its default, but the default is
taken: the file is refused as a whole for the integer beside it. -/
theorem load_hugeFields : IsText (fileText hugeFields) (.object hugeFields) ∧
    judged hugeFields ("verbose", .bool false) = ("verbose", .bool true) ∧
    (load "settings.json" (some (fileText hugeFields).toUTF8)).1.verbose = false := by
  have isText : IsText (fileText hugeFields) (.object hugeFields) := by
    refine isText_fileText (List.cons_ne_nil _ _) ?_
    simp only [hugeFields, List.forall_mem_cons]
    exact ⟨⟨rfl, .inr ⟨_, rfl⟩⟩, ⟨rfl, .inl ⟨_, rfl⟩⟩, nofun⟩
  have refused : Json.parse (fileText hugeFields) = none := by
    rw [parse_of_isText isText, if_neg]
    intro within
    rw [show maxDepth = 979 + 1 from rfl, isWithin_object, List.all_eq_true] at within
    have short := within _ List.mem_cons_self
    rw [isWithin_whole, decide_eq_true_iff, Int.natAbs_natCast, Nat.length_repr_le_iff (by decide)] at short
    exact short.false
  refine ⟨isText, rfl, ?_⟩
  rw [load_eq_default (not_holds_of_parse refused)]

end Settings

end VectorGraph
