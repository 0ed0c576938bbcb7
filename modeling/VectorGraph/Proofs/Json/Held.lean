import VectorGraph.Proofs.Number.Whole
import VectorGraph.Proofs.Params.Refused

/-!
Documents without integers beyond the doubles.

In such a document the reader of numbers is never refused. It takes every integer and every double that is neither
infinite nor without a value (`finite?_eq`), and a point if both of its coordinates are such numbers
(`coordinates?_eq`).
-/
namespace VectorGraph

/-- Whether a number is a finite one. -/
def Scalar.isNumber : Scalar → Bool
  | .whole _ => true
  | .real x => isFiniteDouble x
  | .tooLarge => false

/-- The doubles that integers turn into are finite. -/
theorem Outline.isFinite_eq {a : Scalar} (held : a.toFloat? ≠ none) : Outline.isFinite a = .ok a.isNumber := by
  cases a with
  | real x => rfl
  | tooLarge => exact absurd rfl held
  | whole n =>
    obtain ⟨x, double⟩ := Option.ne_none_iff_exists'.mp held
    have finite : isFiniteDouble x = true := isFiniteDouble_iff.mpr (exists_finite_of_doubleOfInt double)
    simp only [isFinite, double, finite, Scalar.isNumber]

namespace Json

mutual

/-- Whether a double can hold every integer in a value. -/
def isHeld : Json → Bool
  | .whole n => (doubleOfInt n).isSome
  | .list items => areHeld items
  | .object fields => fieldsHeld fields
  | _ => true

def areHeld : List Json → Bool
  | [] => true
  | item :: rest => item.isHeld && areHeld rest

def fieldsHeld : List (String × Json) → Bool
  | [] => true
  | (_, value) :: rest => value.isHeld && fieldsHeld rest

end

/-- The number that a value is, if it is an integer or a finite double. -/
def number? : Json → Option Scalar
  | .whole n => some (.whole n)
  | .real x => if isFiniteDouble x then some (.real x) else none
  | _ => none

/-- The point that an entry has, if both coordinates are numbers. -/
def point? (entry : Json) : Option (Scalar × Scalar) :=
  match (entry.under "x").number?, (entry.under "y").number? with
  | some x, some y => some (x, y)
  | _, _ => none

theorem fieldsHeld_iff {fields : Fields} : fieldsHeld fields = true ↔ ∀ f ∈ fields, f.2.isHeld = true := by
  induction fields with
  | nil => simp [fieldsHeld]
  | cons f rest ih => simp [fieldsHeld, ih]

variable {value entry : Json}

theorem isHeld_under (held : value.isHeld = true) (key : String) : (value.under key).isHeld = true := by
  cases found : value.get? key with
  | none => simp [under, found, isHeld]
  | some inner =>
    cases value with
    | object fields =>
      obtain ⟨f, there, rfl⟩ := Option.map_eq_some_iff.mp found
      have each := fieldsHeld_iff.mp (by simpa [isHeld] using held)
      simpa [under, found] using each f (List.mem_of_find?_eq_some there)
    | _ => cases found

/-- Integers and finite doubles are taken, and nothing is refused. -/
theorem finite?_eq (held : value.isHeld = true) : value.finite? = .ok value.number? := by
  cases value with
  | whole n =>
    have finite : Outline.isFinite (.whole n) = .ok true := Outline.isFinite_eq (Option.isSome_iff_ne_none.mp held)
    simp only [finite?, scalar?, finite]
    rfl
  | real x => rfl
  | _ => rfl

theorem coordinates?_eq (held : entry.isHeld = true) : Outline.coordinates? entry = .ok entry.point? := by
  have readX : entry.finiteAt? "x" = .ok (entry.under "x").number? := finite?_eq (isHeld_under held "x")
  have readY : entry.finiteAt? "y" = .ok (entry.under "y").number? := finite?_eq (isHeld_under held "y")
  simp only [Outline.coordinates?, readX, readY, point?]
  cases (entry.under "x").number? with
  | none => rfl
  | some x => cases (entry.under "y").number? <;> rfl

end Json

end VectorGraph
