import VectorGraph.Json.Parser

/-!
The grammar of JSON texts.

A text spells a value (`Spells`), and what it spells is said without a word about how it is read: no rule asks what
stands behind the text. Objects are taken down as they stand in the text, with keys that may repeat; which of two equal
keys counts is said by `merged`. Two things are not part of the grammar, since they do not make a text a worse one: how
deep lists and objects are nested and how many digits an integer has (`isWithin`).
-/
namespace VectorGraph.Json

/-- Only blanks. -/
def Blanks (cs : List Char) : Prop := ∀ c ∈ cs, isBlank c = true

/-! ## Strings -/

/-- Four hexadecimal digits spell a unit. -/
inductive SpellsUnit : List Char → Nat → Prop
  | digits {a b c d : Char} {w x y z : Nat} (first : hexDigit? a = some w) (second : hexDigit? b = some x)
      (third : hexDigit? c = some y) (fourth : hexDigit? d = some z) :
      SpellsUnit [a, b, c, d] (((w * 16 + x) * 16 + y) * 16 + z)

/-- The first unit of a pair. -/
def IsHigh (unit : Nat) : Prop := 0xD800 ≤ unit ∧ unit ≤ 0xDBFF

/-- The second unit of a pair. -/
def IsLow (unit : Nat) : Prop := 0xDC00 ≤ unit ∧ unit ≤ 0xDFFF

/-- The escape of a second unit stands in front. -/
def BeginsLow (cs : List Char) : Prop :=
  ∃ digits unit rest, cs = '\\' :: 'u' :: (digits ++ rest) ∧ SpellsUnit digits unit ∧ IsLow unit

/-- What stands between the quotes of a string spells its characters. -/
inductive SpellsChars : List Char → List Char → Prop
  | nil : SpellsChars [] []
  | plain {c : Char} {cs t : List Char} (unquoted : c ≠ '"') (unescaped : c ≠ '\\') (visible : 0x20 ≤ c.toNat)
      (rest : SpellsChars cs t) : SpellsChars (c :: cs) (c :: t)
  | short {c d : Char} {cs t : List Char} (escape : shortEscape? c = some d) (rest : SpellsChars cs t) :
      SpellsChars ('\\' :: c :: cs) (d :: t)
  | pair {digits digits' cs t : List Char} {high low : Nat} (first : SpellsUnit digits high)
      (second : SpellsUnit digits' low) (isHigh : IsHigh high) (isLow : IsLow low) (rest : SpellsChars cs t) :
      SpellsChars ('\\' :: 'u' :: (digits ++ '\\' :: 'u' :: (digits' ++ cs)))
        (Char.ofNat (0x10000 + (high - 0xD800) * 0x400 + (low - 0xDC00)) :: t)
  | unit {digits cs t : List Char} {unit : Nat} (first : SpellsUnit digits unit)
      (alone : IsHigh unit → ¬BeginsLow cs) (rest : SpellsChars cs t) :
      SpellsChars ('\\' :: 'u' :: (digits ++ cs)) (loneUnit unit :: t)

/-! ## Numbers -/

/-- One digit or more. -/
def IsDigits (cs : List Char) : Prop := cs ≠ [] ∧ ∀ c ∈ cs, isDigit c = true

/-- Nothing, or a point and digits. -/
inductive SpellsPlaces : List Char → List Char → Prop
  | none : SpellsPlaces [] []
  | some {digits : List Char} (given : IsDigits digits) : SpellsPlaces ('.' :: digits) digits

/-- Nothing, or an exponent. -/
inductive SpellsPower : List Char → Int → Prop
  | none : SpellsPower [] 0
  | some {e : Char} {sign digits : List Char} (letter : e = 'e' ∨ e = 'E') (signed : sign = [] ∨ sign = ['+'])
      (given : IsDigits digits) : SpellsPower (e :: (sign ++ digits)) (digitsValue digits)
  | minus {e : Char} {digits : List Char} (letter : e = 'e' ∨ e = 'E') (given : IsDigits digits) :
      SpellsPower (e :: '-' :: digits) (-(digitsValue digits : Int))

/-- The sign of a number. -/
def minus (negative : Bool) : List Char := if negative then ['-'] else []

/-! ## Values -/

/-- The values that have names. -/
def names : List (String × Json) :=
  [("null", .null), ("true", .bool true), ("false", .bool false), ("NaN", .real (0.0 / 0.0)),
    ("Infinity", .real (1.0 / 0.0)), ("-Infinity", .real (-1.0 / 0.0))]

/-- A part of a list or an object: a text that spells a value, with what stands before it and behind it. -/
structure Part where
  lead : List Char
  text : List Char
  trail : List Char
  value : Json

/-- Parts with commas between them. -/
def joined (parts : List Part) : List Char := [','].intercalate (parts.map fun p => p.lead ++ p.text ++ p.trail)

/-- What stands before a value in an object: the key in quotes and a colon. -/
def Introduces (lead : List Char) (key : String) : Prop :=
  ∃ before cs t middle after, lead = before ++ '"' :: (cs ++ '"' :: (middle ++ ':' :: after)) ∧
    SpellsChars cs t ∧ key = String.ofList t ∧ Blanks before ∧ Blanks middle ∧ Blanks after

/-- A text spells a value. -/
inductive Spells : List Char → Json → Prop
  | name {name : String} {v : Json} (named : (name, v) ∈ names) : Spells name.toList v
  | whole (n : Int) : Spells (toString n).toList (.whole n)
  | minusZero : Spells ['-', '0'] (.whole 0)
  | real {places : List Char} {digits : List Char} {power : List Char} {e : Int} (negative : Bool) (n : Nat)
      (fraction : SpellsPlaces places digits) (exponent : SpellsPower power e) (marked : places ≠ [] ∨ power ≠ []) :
      Spells (minus negative ++ n.repr.toList ++ places ++ power)
        (.real (decimalDouble negative (digitsValue (n.repr.toList ++ digits)) (e - digits.length)))
  | text {cs t : List Char} (chars : SpellsChars cs t) : Spells ('"' :: (cs ++ ['"'])) (.text (String.ofList t))
  | emptyList {cs : List Char} (blank : Blanks cs) : Spells ('[' :: (cs ++ [']'])) (.list [])
  | list {parts : List Part} (given : parts ≠ []) (leads : ∀ p ∈ parts, Blanks p.lead)
      (trails : ∀ p ∈ parts, Blanks p.trail) (each : ∀ p ∈ parts, Spells p.text p.value) :
      Spells ('[' :: (joined parts ++ [']'])) (.list (parts.map (·.value)))
  | emptyObject {cs : List Char} (blank : Blanks cs) : Spells ('\x7b' :: (cs ++ ['\x7d'])) (.object [])
  | object {fields : List (String × Part)} (given : fields ≠ []) (leads : ∀ f ∈ fields, Introduces f.2.lead f.1)
      (trails : ∀ f ∈ fields, Blanks f.2.trail) (each : ∀ f ∈ fields, Spells f.2.text f.2.value) :
      Spells ('\x7b' :: (joined (fields.map (·.2)) ++ ['\x7d'])) (.object (fields.map fun f => (f.1, f.2.value)))

/-- A whole text: a value with blanks around it. -/
def IsText (s : String) (v : Json) : Prop :=
  ∃ before cs after, s.toList = before ++ (cs ++ after) ∧ Blanks before ∧ Blanks after ∧ Spells cs v

/-! ## Keys that repeat -/

mutual

/-- The value in which of equal keys the last one counts, at the place of the first. -/
def merged : Json → Json
  | .list items => .list (mergedItems items)
  | .object fields => .object (mergeFields [] (mergedFields fields))
  | v => v

def mergedItems : List Json → List Json
  | [] => []
  | item :: rest => merged item :: mergedItems rest

def mergedFields : List (String × Json) → List (String × Json)
  | [] => []
  | (key, value) :: rest => (key, merged value) :: mergedFields rest

end

/-! ## Bounds -/

mutual

/-- Whether a value is nested at most so deep and has no integer of too many digits. -/
def isWithin : Nat → Json → Bool
  | _, .whole n => n.natAbs.repr.length ≤ maxDigits
  | 0, .list _ | 0, .object _ => false
  | depth + 1, .list items => areWithin depth items
  | depth + 1, .object fields => fieldsWithin depth fields
  | _, _ => true

def areWithin : Nat → List Json → Bool
  | _, [] => true
  | depth, item :: rest => isWithin depth item && areWithin depth rest

def fieldsWithin : Nat → List (String × Json) → Bool
  | _, [] => true
  | depth, (_, value) :: rest => isWithin depth value && fieldsWithin depth rest

end

theorem mergedItems_eq_map (items : List Json) : mergedItems items = items.map merged := by
  induction items with
  | nil => rfl
  | cons item rest ih => rw [mergedItems, ih, List.map_cons]

theorem mergedFields_eq_map (fields : Fields) : mergedFields fields = fields.map fun f => (f.1, merged f.2) := by
  induction fields with
  | nil => rfl
  | cons f rest ih =>
    obtain ⟨key, value⟩ := f
    rw [mergedFields, ih, List.map_cons]

theorem areWithin_eq_all (depth : Nat) (items : List Json) : areWithin depth items = items.all (isWithin depth) := by
  induction items with
  | nil => rfl
  | cons item rest ih => rw [areWithin, ih, List.all_cons]

theorem fieldsWithin_eq_all (depth : Nat) (fields : Fields) :
    fieldsWithin depth fields = fields.all fun f => isWithin depth f.2 := by
  induction fields with
  | nil => rfl
  | cons f rest ih =>
    obtain ⟨key, value⟩ := f
    rw [fieldsWithin, ih, List.all_cons]

end VectorGraph.Json
