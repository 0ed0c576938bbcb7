import Std.Data.HashSet
import VectorGraph.Contour.SegmentMap
import VectorGraph.Failure

/-!
Joining directed segments to subpaths.

A walk begins at a starting point that no subpath has drawn yet and follows the segments. It ends
where it began, which closes the subpath, at a point that is drawn already, at a point where no
segment starts, or when its number of steps is exhausted.
-/
namespace VectorGraph.Contour

/-- The points of a subpath in order. A closed one ends at the point where it began. -/
structure Subpath (κ : Type) where
  start : κ
  rest : List κ
  closed : Bool
  deriving Repr

variable {κ : Type} [BEq κ] [Hashable κ]

/-- Follows the segments from `current`; `drawn` holds the points drawn before, `rest` those of this
subpath, last first. -/
def follow (next : κ → Option κ) (start : κ) :
    Nat → Option κ → Std.HashSet κ → List κ → Subpath κ × Std.HashSet κ
  | 0, _, drawn, rest => (⟨start, rest.reverse, false⟩, drawn)
  | _ + 1, none, drawn, rest => (⟨start, rest.reverse, false⟩, drawn)
  | steps + 1, some current, drawn, rest =>
    if current == start then (⟨start, (current :: rest).reverse, true⟩, drawn)
    else if drawn.contains current then (⟨start, (current :: rest).reverse, false⟩, drawn)
    else follow next start steps (next current) (drawn.insert current) (current :: rest)

/-- The subpaths that begin at the given starting points, those drawn already left out. -/
def subpathsFrom (next : κ → Option κ) (maxSteps : Nat) :
    List κ → Std.HashSet κ → List (Subpath κ)
  | [], _ => []
  | start :: starts, drawn =>
    if drawn.contains start then subpathsFrom next maxSteps starts drawn
    else
      let (subpath, drawn) := follow next start maxSteps (next start) (drawn.insert start) []
      subpath :: subpathsFrom next maxSteps starts drawn

/-- The subpaths of a map, each at most `maxSteps` segments long. -/
def stitch (m : SegmentMap κ) (maxSteps : Nat) : List (Subpath κ) :=
  subpathsFrom m.end? maxSteps m.starts ∅

/-- The two coordinates of a point written with exactly one comma. -/
def splitPoint (point : String) : Except Failure String :=
  let cs := point.toList
  if cs.count ',' = 1 then .ok (String.ofList (cs.map fun c => if c == ',' then ' ' else c))
  else .error .malformed

/-- A subpath as drawing commands. -/
def Subpath.commands (s : Subpath String) : Except Failure (List String) := do
  let first ← splitPoint s.start
  let rest ← s.rest.mapM fun p => do return "L " ++ (← splitPoint p)
  return ("M " ++ first) :: rest ++ (if s.closed then ["Z"] else [])

/-- The path description of the subpaths of a map; an empty end point ends a walk unseen. -/
def stitchText (m : SegmentMap String) (maxSteps : Nat) : Except Failure String := do
  let next (p : String) : Option String := (m.end? p).filter (· != "")
  let subpaths := subpathsFrom next maxSteps m.starts ∅
  return " ".intercalate (← subpaths.mapM Subpath.commands).flatten

end VectorGraph.Contour
