import Std.Data.HashMap

/-!
Maps from starting points to end points that keep the order in which the starting points came.

Setting a point that is there already keeps its place.
-/
namespace VectorGraph

structure SegmentMap (κ : Type) [BEq κ] [Hashable κ] where
  /-- The starting points, last first. -/
  recent : List κ
  ends : Std.HashMap κ κ

namespace SegmentMap

variable {κ : Type} [BEq κ] [Hashable κ]

def empty : SegmentMap κ := ⟨[], ∅⟩

/-- The end point of the segment that starts at `start`. -/
def end? (m : SegmentMap κ) (start : κ) : Option κ := m.ends[start]?

def insert (m : SegmentMap κ) (start stop : κ) : SegmentMap κ where
  recent := if m.ends.contains start then m.recent else start :: m.recent
  ends := m.ends.insert start stop

/-- The starting points in order. -/
def starts (m : SegmentMap κ) : List κ := m.recent.reverse

/-- The segments in order. -/
def toList (m : SegmentMap κ) : List (κ × κ) :=
  m.starts.filterMap fun start => (m.end? start).map (start, ·)

def ofList (segments : List (κ × κ)) : SegmentMap κ :=
  segments.foldl (fun m s => m.insert s.1 s.2) empty

end SegmentMap

end VectorGraph
