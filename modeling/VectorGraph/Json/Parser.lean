import VectorGraph.Json.Value
import VectorGraph.Text.Hex

/-!
Reading JSON text.

Beside the standard grammar, `NaN`, `Infinity` and `-Infinity` are numbers. A number with a point or
an exponent is a double, any other an integer of at most 4300 digits. Of two equal keys in an object
the later value counts. A control character in a string, a trailing comma, a comment and anything
after the value are refused. A lone surrogate in an escape is read as the replacement character.
-/
namespace VectorGraph.Json

/-- The longest integer that is read, in digits. -/
def maxDigits : Nat := 4300

/-- The deepest nesting of lists and objects that is read. -/
def maxDepth : Nat := 980

def isBlank (c : Char) : Bool := c == ' ' || c == '\t' || c == '\n' || c == '\r'

def skipBlank (cs : List Char) : List Char := cs.dropWhile isBlank

/-- Four hexadecimal digits and what follows them. -/
def hexUnit? : List Char → Option (Nat × List Char)
  | a :: b :: c :: d :: rest => do
    let a ← hexDigit? a
    let b ← hexDigit? b
    let c ← hexDigit? c
    let d ← hexDigit? d
    return (((a * 16 + b) * 16 + c) * 16 + d, rest)
  | _ => none

/-- A UTF-16 unit that stands alone, as a character. -/
def loneUnit (unit : Nat) : Char :=
  if 0xD800 ≤ unit ∧ unit ≤ 0xDFFF then Char.ofNat 0xFFFD else Char.ofNat unit

/-- The character of an escape `\u…`, a high and a low surrogate together making one. -/
def unicodeEscape? (cs : List Char) : Option (Char × List Char) := do
  let (high, rest) ← hexUnit? cs
  if 0xD800 ≤ high ∧ high ≤ 0xDBFF then
    match rest with
    | '\\' :: 'u' :: more =>
      match hexUnit? more with
      | some (low, after) =>
        if 0xDC00 ≤ low ∧ low ≤ 0xDFFF then
          return (Char.ofNat (0x10000 + (high - 0xD800) * 0x400 + (low - 0xDC00)), after)
        else return (loneUnit high, rest)
      | none => return (loneUnit high, rest)
    | _ => return (loneUnit high, rest)
  else return (loneUnit high, rest)

def shortEscape? : Char → Option Char
  | '"' => some '"'
  | '\\' => some '\\'
  | '/' => some '/'
  | 'b' => some '\x08'
  | 'f' => some '\x0c'
  | 'n' => some '\n'
  | 'r' => some '\r'
  | 't' => some '\t'
  | _ => none

/-- The rest of a string after its opening quote; `acc` holds what was read, last first. -/
def stringBody : Nat → List Char → List Char → Option (String × List Char)
  | 0, _, _ => none
  | _ + 1, _, [] => none
  | fuel + 1, acc, c :: rest =>
    if c = '"' then some (String.ofList acc.reverse, rest)
    else if c = '\\' then
      match rest with
      | 'u' :: more =>
        match unicodeEscape? more with
        | some (d, after) => stringBody fuel (d :: acc) after
        | none => none
      | e :: more =>
        match shortEscape? e with
        | some d => stringBody fuel (d :: acc) more
        | none => none
      | [] => none
    else if c.toNat < 0x20 then none
    else stringBody fuel (c :: acc) rest

def isDigit (c : Char) : Bool := '0' ≤ c && c ≤ '9'

def digitsValue (cs : List Char) : Nat :=
  cs.foldl (fun n c => n * 10 + (c.toNat - '0'.toNat)) 0

/-- The double nearest to `count · 10 ^ exponent`; beyond the largest double it is infinite. -/
def decimalDouble (negative : Bool) (count : Nat) (exponent : Int) : Float :=
  let digits : Int := count.repr.length
  let magnitude : Float :=
    if count = 0 ∨ digits + exponent < -400 then 0.0
    else if 400 < digits + exponent then 1.0 / 0.0
    else
      match nearestDouble false (count * Nat.pow 10 exponent.toNat) (Nat.pow 10 (-exponent).toNat) with
      | some x => x
      | none => 1.0 / 0.0
  if negative then -magnitude else magnitude

/-- The digits after a point, if a point with digits stands here. -/
def fraction? : List Char → Option (List Char × List Char)
  | '.' :: rest =>
    let digits := rest.takeWhile isDigit
    if digits.isEmpty then none else some (digits, rest.dropWhile isDigit)
  | _ => none

/-- The exponent, if one with digits stands here. -/
def exponent? : List Char → Option (Int × List Char)
  | e :: rest =>
    if e = 'e' ∨ e = 'E' then
      let (negative, rest) :=
        match rest with
        | '-' :: more => (true, more)
        | '+' :: more => (false, more)
        | other => (false, other)
      let digits := rest.takeWhile isDigit
      if digits.isEmpty then none
      else
        let n : Int := digitsValue digits
        some (if negative then -n else n, rest.dropWhile isDigit)
    else none
  | [] => none

/-- A number without its sign. -/
def unsignedNumber? (negative : Bool) (cs : List Char) : Option (Json × List Char) :=
  let digits :=
    match cs with
    | '0' :: _ => ['0']
    | _ => cs.takeWhile isDigit
  if digits.isEmpty then none
  else
    let rest := cs.drop digits.length
    let (places, afterPoint) := (fraction? rest).getD ([], rest)
    match fraction? rest, exponent? afterPoint with
    | none, none =>
      if maxDigits < digits.length then none
      else
        let n : Int := digitsValue digits
        some (.whole (if negative then -n else n), rest)
    | _, power =>
      let (e, after) := power.getD (0, afterPoint)
      some (.real (decimalDouble negative (digitsValue (digits ++ places)) (e - places.length)), after)

/-- Drops `word` from the front. -/
def dropWord? (word cs : List Char) : Option (List Char) :=
  if word.isPrefixOf cs then some (cs.drop word.length) else none

/-- A number, a name of a constant or a string. -/
def simpleValue? (cs : List Char) : Option (Json × List Char) :=
  match cs with
  | '"' :: rest => (stringBody (rest.length + 1) [] rest).map fun (s, after) => (.text s, after)
  | '-' :: rest =>
    match dropWord? "Infinity".toList rest with
    | some after => some (.real (-1.0 / 0.0), after)
    | none => unsignedNumber? true rest
  | _ =>
    (dropWord? "null".toList cs).map (.null, ·) <|>
    (dropWord? "true".toList cs).map (.bool true, ·) <|>
    (dropWord? "false".toList cs).map (.bool false, ·) <|>
    (dropWord? "NaN".toList cs).map (.real (0.0 / 0.0), ·) <|>
    (dropWord? "Infinity".toList cs).map (.real (1.0 / 0.0), ·) <|>
    unsignedNumber? false cs

/-- A string used as a key, with the colon after it. -/
def key? (cs : List Char) : Option (String × List Char) :=
  match cs with
  | '"' :: rest =>
    match stringBody (rest.length + 1) [] rest with
    | some (s, after) =>
      match skipBlank after with
      | ':' :: more => some (s, skipBlank more)
      | _ => none
    | none => none
  | _ => none

mutual

/-- A value at the front of the text, nested at most `depth` deep. -/
def value? : Nat → Nat → List Char → Option (Json × List Char)
  | 0, _, _ => none
  | fuel + 1, depth, cs =>
    match cs, depth with
    | '[' :: _, 0 => none
    | '\x7b' :: _, 0 => none
    | '[' :: rest, depth + 1 =>
      match skipBlank rest with
      | ']' :: after => some (.list [], after)
      | more => items? fuel depth [] more
    | '\x7b' :: rest, depth + 1 =>
      match skipBlank rest with
      | '\x7d' :: after => some (.object [], after)
      | more => fields? fuel depth [] more
    | _, _ => simpleValue? cs

/-- The items of a list up to its closing bracket; `acc` holds those read, last first. -/
def items? : Nat → Nat → List Json → List Char → Option (Json × List Char)
  | 0, _, _, _ => none
  | fuel + 1, depth, acc, cs =>
    match value? fuel depth cs with
    | none => none
    | some (item, rest) =>
      match skipBlank rest with
      | ',' :: more => items? fuel depth (item :: acc) (skipBlank more)
      | ']' :: after => some (.list (item :: acc).reverse, after)
      | _ => none

/-- The fields of an object up to its closing brace. -/
def fields? : Nat → Nat → Fields → List Char → Option (Json × List Char)
  | 0, _, _, _ => none
  | fuel + 1, depth, acc, cs =>
    match key? cs with
    | none => none
    | some (key, rest) =>
      match value? fuel depth rest with
      | none => none
      | some (item, rest) =>
        let acc := insertField acc key item
        match skipBlank rest with
        | ',' :: more => fields? fuel depth acc (skipBlank more)
        | '\x7d' :: after => some (.object acc, after)
        | _ => none

end

/-- The value that a whole text stands for. -/
def parse (s : String) : Option Json :=
  let cs := s.toList
  match value? (cs.length + 1) maxDepth (skipBlank cs) with
  | some (value, rest) => if (skipBlank rest).isEmpty then some value else none
  | none => none

end VectorGraph.Json
