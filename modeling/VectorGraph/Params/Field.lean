import VectorGraph.Number.Rounding
import VectorGraph.Outline.Points

/-!
Typed parameters of an operator.

A `Field` reads the value under its key: a value of the wrong type counts as missing and gives the
fallback, and a number is brought into the bounds of the field. Only an integer beyond the doubles is
refused, wherever a number is looked for.
-/
namespace VectorGraph

/-- A point with finite coordinates. -/
structure Point where
  x : Float
  y : Float

inductive FieldType where
  | flag
  | whole
  | real
  | text
  | items
  | point
  deriving DecidableEq, Repr

namespace FieldType

abbrev Value : FieldType → Type
  | .flag => Bool
  | .whole => Int
  | .real => Float
  | .text => String
  | .items => List Json
  | .point => Point

/-- A finite number with its fraction dropped. -/
def truncated : Scalar → Int
  | .whole n => n
  | .real x =>
    match FloatView.of x with
    | .finite b => b.truncate
    | _ => 0
  | .tooLarge => 0

def asDouble (a : Scalar) : Float := a.toFloat?.getD 0

/-- The value of the given type that a document value stands for. -/
def accept? : (t : FieldType) → Json → Except Failure (Option t.Value)
  | .flag, raw =>
    match raw with
    | .bool b => .ok (some b)
    | _ => .ok none
  | .whole, raw => return (← raw.finite?).map truncated
  | .real, raw => return (← raw.finite?).map asDouble
  | .text, raw =>
    match raw with
    | .text s => .ok (if s = "" then none else some s)
    | _ => .ok none
  | .items, raw =>
    match raw with
    | .list entries => .ok (some entries)
    | _ => .ok none
  | .point, raw => return (← Outline.coordinates? raw).map fun (x, y) => ⟨asDouble x, asDouble y⟩

/-- The larger of a bound and a value, the bound when they are equal. -/
def atLeast {α : Type} [LT α] [DecidableLT α] (low : Option α) (v : α) : α :=
  match low with
  | some l => if l < v then v else l
  | none => v

/-- The smaller of a bound and a value, the bound when they are equal. -/
def atMost {α : Type} [LT α] [DecidableLT α] (high : Option α) (v : α) : α :=
  match high with
  | some h => if v < h then v else h
  | none => v

/-- A number brought into its bounds; other values have none. -/
def clamp : (t : FieldType) → Option t.Value → Option t.Value → t.Value → t.Value
  | .whole, low, high, v => atMost high (atLeast low v)
  | .real, low, high, v => atMost high (atLeast low v)
  | _, _, _, v => v

/-- A value as it stands in a document. -/
def toJson : (t : FieldType) → t.Value → Json
  | .flag, b => .bool b
  | .whole, n => .whole n
  | .real, x => .real x
  | .text, s => .text s
  | .items, entries => .list entries
  | .point, p => .object [("x", .real p.x), ("y", .real p.y)]

end FieldType

/-- A parameter that always has a value. -/
structure Field (t : FieldType) where
  name : String
  key : String
  fallback : t.Value
  low : Option t.Value := none
  high : Option t.Value := none

/-- A parameter that may have no value. -/
structure OptionalField (t : FieldType) where
  name : String
  key : String
  low : Option t.Value := none
  high : Option t.Value := none

/-- The document value under a key; null for one that is missing. -/
def rawValue (params : Fields) (key : String) : Json := (Json.field? params key).getD .null

def Field.read {t : FieldType} (f : Field t) (params : Fields) : Except Failure t.Value := do
  let value ← t.accept? (rawValue params f.key)
  return t.clamp f.low f.high (value.getD f.fallback)

def OptionalField.read {t : FieldType} (f : OptionalField t) (params : Fields) :
    Except Failure (Option t.Value) := do
  let value ← t.accept? (rawValue params f.key)
  return value.map (t.clamp f.low f.high)

/-- A parameter of any type. -/
inductive Slot where
  | needed {t : FieldType} (f : Field t)
  | optional {t : FieldType} (f : OptionalField t)

namespace Slot

def name : Slot → String
  | .needed f => f.name
  | .optional f => f.name

def key : Slot → String
  | .needed f => f.key
  | .optional f => f.key

/-- The value of a parameter as it stands in a document, null when it has none. -/
def value (s : Slot) (params : Fields) : Except Failure Json :=
  match s with
  | .needed (t := t) f => return t.toJson (← f.read params)
  | .optional (t := t) f => return ((← f.read params).map t.toJson).getD .null

end Slot

end VectorGraph
