import VectorGraph.Number.Scalar

/-!
JSON values. Integers and doubles are told apart, objects keep their keys in the order in which
these were first written, and no key stands twice in an object that was built with `insertField`.
Equality is that of the representation; `isSame` compares what values stand for.
-/
namespace VectorGraph

inductive Json where
  | null
  | bool (b : Bool)
  | whole (n : Int)
  | real (x : Float)
  | text (s : String)
  | list (items : List Json)
  | object (fields : List (String × Json))
  deriving Inhabited, Repr

/-- The pairs of an object, in order. -/
abbrev Fields := List (String × Json)

namespace Json

mutual

/-- Whether two values are equal, doubles being told apart by their bits. -/
def decEq : (a b : Json) → Decidable (a = b)
  | .null, .null => isTrue rfl
  | .bool a, .bool b => decidable_of_iff (a = b) (by simp)
  | .whole a, .whole b => decidable_of_iff (a = b) (by simp)
  | .real a, .real b => decidable_of_iff (a = b) (by simp)
  | .text a, .text b => decidable_of_iff (a = b) (by simp)
  | .list a, .list b => match decEqItems a b with
    | isTrue h => isTrue (by rw [h])
    | isFalse h => isFalse (by simpa using h)
  | .object a, .object b => match decEqFields a b with
    | isTrue h => isTrue (by rw [h])
    | isFalse h => isFalse (by simpa using h)
  | .null, .bool _ | .null, .whole _ | .null, .real _ | .null, .text _ | .null, .list _
  | .null, .object _ | .bool _, .null | .bool _, .whole _ | .bool _, .real _ | .bool _, .text _
  | .bool _, .list _ | .bool _, .object _ | .whole _, .null | .whole _, .bool _ | .whole _, .real _
  | .whole _, .text _ | .whole _, .list _ | .whole _, .object _ | .real _, .null | .real _, .bool _
  | .real _, .whole _ | .real _, .text _ | .real _, .list _ | .real _, .object _ | .text _, .null
  | .text _, .bool _ | .text _, .whole _ | .text _, .real _ | .text _, .list _ | .text _, .object _
  | .list _, .null | .list _, .bool _ | .list _, .whole _ | .list _, .real _ | .list _, .text _
  | .list _, .object _ | .object _, .null | .object _, .bool _ | .object _, .whole _
  | .object _, .real _ | .object _, .text _ | .object _, .list _ => isFalse (by simp)

def decEqItems : (a b : List Json) → Decidable (a = b)
  | [], [] => isTrue rfl
  | a :: as, b :: bs =>
    match decEq a b, decEqItems as bs with
    | isTrue h, isTrue t => isTrue (by rw [h, t])
    | isFalse h, _ => isFalse (by simp [h])
    | _, isFalse t => isFalse (by simp [t])
  | [], _ :: _ | _ :: _, [] => isFalse (by simp)

def decEqFields : (a b : List (String × Json)) → Decidable (a = b)
  | [], [] => isTrue rfl
  | (k, a) :: as, (l, b) :: bs =>
    match decEq a b, decEqFields as bs with
    | isTrue h, isTrue t => decidable_of_iff (k = l) (by simp [h, t])
    | isFalse h, _ => isFalse (by simp [h])
    | _, isFalse t => isFalse (by simp [t])
  | [], _ :: _ | _ :: _, [] => isFalse (by simp)

end

instance decidableEqJson : DecidableEq Json := decEq

/-- The value under a key. -/
def field? (fields : Fields) (key : String) : Option Json :=
  (fields.find? (·.1 == key)).map (·.2)

/-- Sets a key: in its place if it is there, else at the end. -/
def insertField (fields : Fields) (key : String) (value : Json) : Fields :=
  if fields.any (·.1 == key) then
    fields.map fun f => if f.1 == key then (key, value) else f
  else
    fields ++ [(key, value)]

/-- Sets every key of `updates` in turn. -/
def mergeFields (fields updates : Fields) : Fields :=
  updates.foldl (fun acc f => insertField acc f.1 f.2) fields

/-- The value under a key of an object; nothing for any other value. -/
def get? (value : Json) (key : String) : Option Json :=
  match value with
  | .object fields => field? fields key
  | _ => none

/-- The fields of an object; any other value has none. -/
def fieldsOf : Json → Fields
  | .object fields => fields
  | _ => []

/-- The number that a value is, if it is one; a truth value is none. -/
def scalar? : Json → Option Scalar
  | .whole n => some (.whole n)
  | .real x => some (.real x)
  | _ => none

/-- Whether a value counts as given: null, false, zero and whatever is empty do not. -/
def isGiven : Json → Bool
  | .null => false
  | .bool b => b
  | .whole n => n != 0
  | .real x => x != 0
  | .text s => s != ""
  | .list items => !items.isEmpty
  | .object fields => !fields.isEmpty

mutual

/-- The value without what does not count in a comparison: a truth value is zero or one, a whole
double is an integer, and the keys of an object are in order. -/
def comparable : Json → Json
  | .bool b => .whole b.toNat
  | .real x =>
    match FloatView.of x with
    | .finite b => if b.isWhole then .whole b.truncate else .real x
    | _ => .real x
  | .list items => .list (comparableItems items)
  | .object fields => .object ((comparableFields fields).mergeSort fun a b => !(b.1 < a.1))
  | other => other

def comparableItems : List Json → List Json
  | [] => []
  | item :: rest => comparable item :: comparableItems rest

def comparableFields : List (String × Json) → List (String × Json)
  | [] => []
  | (key, value) :: rest => (key, comparable value) :: comparableFields rest

end

/-- Whether two values stand for the same. -/
def isSame (a b : Json) : Bool := a.comparable == b.comparable

end Json

end VectorGraph
