/-!
Lengths in pixels as they are asked for.

A length is an integer. A request may give a truth value instead, which counts one or zero; where
such a length is written, the truth value is written.
-/
namespace VectorGraph

inductive Extent where
  | pixels (n : Int)
  | truth (b : Bool)
  deriving DecidableEq, Repr, Inhabited

namespace Extent

/-- The number of pixels. -/
def count : Extent → Int
  | .pixels n => n
  | .truth b => b.toNat

/-- A length as the value of an attribute. -/
def attributeText : Extent → String
  | .pixels n => toString n
  | .truth b => if b then "true" else "false"

/-- A length inside a text. -/
def literal : Extent → String
  | .pixels n => toString n
  | .truth b => if b then "True" else "False"

end Extent

end VectorGraph
