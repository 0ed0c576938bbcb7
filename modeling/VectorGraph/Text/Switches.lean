/-!
Sets of code points given by the ascending list of points at which membership changes.
-/
namespace VectorGraph

/-- Whether an odd number of switches lies at or before `n`. -/
def inSwitches (switches : List Nat) (n : Nat) : Bool :=
  (switches.takeWhile (· ≤ n)).length % 2 == 1

end VectorGraph
