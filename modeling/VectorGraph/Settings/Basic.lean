/-!
The settings of the engine.
-/
namespace VectorGraph

structure Settings where
  /-- The resolution against which the sizes of shapes are given. -/
  previewResolution : Int := 512
  /-- The sampling grid of a trace that names none. -/
  defaultFidelity : Int := 128
  /-- The number of layers of a layer blur. -/
  blurSteps : Int := 16
  /-- The bound on the entries of a cache. -/
  maxCacheEntries : Int := 512
  /-- The length of the salt in the ids of definitions. -/
  idSaltLength : Int := 4
  /-- Whether the inputs of a node are evaluated side by side. -/
  concurrentSiblings : Bool := true
  /-- Whether progress is reported. -/
  verbose : Bool := false
  deriving DecidableEq, Repr, Inhabited

end VectorGraph
