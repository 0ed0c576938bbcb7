/-!
The circle constant.
-/
namespace VectorGraph

/-- The double nearest to the ratio of a circle's circumference to its diameter. -/
def pi : Float := 3.141592653589793

end VectorGraph
