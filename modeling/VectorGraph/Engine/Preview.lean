import VectorGraph.Engine.State

/-!
Previews, of which the latest counts.

A preview session numbers the renderings that are requested. What a rendering yields is taken only
if no other was requested since; a fault of the graph is dropped likewise.
-/
namespace VectorGraph

structure Preview where
  resolution : Json
  /-- The number of the rendering requested last. -/
  generation : Nat := 0
  /-- The fragment rendered last. -/
  latest : Option Fragment := none

namespace Preview

/-- The preview at a resolution, or at the one of the settings if none is given. -/
def ofSettings (s : Settings) (resolution : Json) : Preview :=
  { resolution := if resolution.isGiven then resolution else .whole s.previewResolution }

/-- Requests a rendering, and tells its number. -/
def request (v : Preview) : Nat × Preview :=
  (v.generation + 1, { v with generation := v.generation + 1 })

/-- Takes the result of a rendering. The answer is `none` if the rendering is superseded. -/
def resolve (v : Preview) (number : Nat) (result : Except Failure Fragment) :
    Except Failure (Option Fragment) × Preview :=
  match result with
  | .error failure =>
    if failure.isGraphFault && number != v.generation then (.ok none, v) else (.error failure, v)
  | .ok f =>
    if number != v.generation then (.ok none, v) else (.ok (some f), { v with latest := some f })

end Preview

end VectorGraph
