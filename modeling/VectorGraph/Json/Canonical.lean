import VectorGraph.Number.Text
import VectorGraph.Json.Value
import VectorGraph.Text.Hex

/-!
The canonical text of a value: `", "` and `": "` as separators, the keys of every object in the
order of their code points, every character outside printable ASCII escaped, integers by their
digits and doubles by their shortest text. Two values have one canonical text exactly when they
differ in nothing but the order of keys.
-/
namespace VectorGraph.Json

/-- An escape `\uxxxx` with four lower-case hexadecimal digits. -/
def unitEscape (unit : Nat) : List Char :=
  ['\\', 'u', hexChar (unit / 4096 % 16), hexChar (unit / 256 % 16), hexChar (unit / 16 % 16),
    hexChar (unit % 16)]

/-- A character as it stands inside a quoted string; beyond the basic plane it takes two units. -/
def escapeChar (c : Char) : List Char :=
  match c with
  | '"' => ['\\', '"']
  | '\\' => ['\\', '\\']
  | '\n' => ['\\', 'n']
  | '\r' => ['\\', 'r']
  | '\t' => ['\\', 't']
  | '\x0c' => ['\\', 'f']
  | '\x08' => ['\\', 'b']
  | c =>
    let n := c.toNat
    if 0x20 ≤ n ∧ n ≤ 0x7E then [c]
    else if n < 0x10000 then unitEscape n
    else
      unitEscape (0xD800 + (n - 0x10000) / 0x400) ++ unitEscape (0xDC00 + (n - 0x10000) % 0x400)

/-- A string in double quotes. -/
def quoted (s : String) : String :=
  "\"" ++ String.ofList (s.toList.flatMap escapeChar) ++ "\""

/-- The text of a double, with the JSON names of what is no finite number. -/
def realText (x : Float) : String :=
  match FloatView.of x with
  | .finite _ => floatText x
  | .infinite negative => if negative then "-Infinity" else "Infinity"
  | .notANumber => "NaN"

/-- Fields in the order of the code points of their keys. -/
def sortFields (fields : List (String × String)) : List (String × String) :=
  fields.mergeSort fun a b => !(b.1 < a.1)

def fieldText (f : String × String) : String := quoted f.1 ++ ": " ++ f.2

mutual

def canonical : Json → String
  | .null => "null"
  | .bool b => if b then "true" else "false"
  | .whole n => toString n
  | .real x => realText x
  | .text s => quoted s
  | .list items => "[" ++ ", ".intercalate (canonicalItems items) ++ "]"
  | .object fields =>
    "\x7b" ++ ", ".intercalate ((sortFields (canonicalFields fields)).map fieldText) ++ "\x7d"

def canonicalItems : List Json → List String
  | [] => []
  | item :: rest => canonical item :: canonicalItems rest

def canonicalFields : List (String × Json) → List (String × String)
  | [] => []
  | (key, value) :: rest => (key, canonical value) :: canonicalFields rest

end

end VectorGraph.Json
