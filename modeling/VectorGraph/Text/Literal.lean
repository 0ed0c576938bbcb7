import VectorGraph.Json.Canonical
import VectorGraph.Text.Printable

/-!
Values as they are quoted in messages.

A string stands in single quotes, or in double quotes when it holds a single and no double one; the
backslash, the quote, line ends and tabs are escaped, and so is every character that is not
printable. The constants are `None`, `True` and `False`.
-/
namespace VectorGraph

def literalChar (quote c : Char) : List Char :=
  if c = quote ∨ c = '\\' then ['\\', c]
  else if c = '\n' then ['\\', 'n']
  else if c = '\r' then ['\\', 'r']
  else if c = '\t' then ['\\', 't']
  else if isPrintable c then [c]
  else if c.toNat < 0x100 then '\\' :: 'x' :: hexDigits 2 c.toNat
  else if c.toNat < 0x10000 then '\\' :: 'u' :: hexDigits 4 c.toNat
  else '\\' :: 'U' :: hexDigits 8 c.toNat

/-- A string in quotes. -/
def literalText (s : String) : String :=
  let cs := s.toList
  let quote := if cs.contains '\'' && !cs.contains '"' then '"' else '\''
  String.ofList (quote :: cs.flatMap (literalChar quote) ++ [quote])

namespace Json

mutual

/-- A value as it is quoted in a message. -/
def literal : Json → String
  | .null => "None"
  | .bool b => if b then "True" else "False"
  | .whole n => toString n
  | .real x => floatText x
  | .text s => literalText s
  | .list items => "[" ++ ", ".intercalate (literalItems items) ++ "]"
  | .object fields => "\x7b" ++ ", ".intercalate (literalFields fields) ++ "\x7d"

def literalItems : List Json → List String
  | [] => []
  | item :: rest => literal item :: literalItems rest

def literalFields : List (String × Json) → List String
  | [] => []
  | (key, value) :: rest => (literalText key ++ ": " ++ literal value) :: literalFields rest

end

/-- The text of a value used as a name: a string is itself. -/
def nameText : Json → String
  | .text s => s
  | other => other.literal

end Json

end VectorGraph
