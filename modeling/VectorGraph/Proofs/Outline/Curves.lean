import VectorGraph.Outline.Command

/-!
Outlines as they are followed.

A cubic command names two control points and an end, and where its curve starts is where the command before it has
ended. `curvesOf` follows an outline and collects its curves with all four points. Curves that are connected are
found again in the outline that draws them one after the other (`curvesOf_through`).
-/
namespace VectorGraph.Outline

/-- A cubic curve: where it starts, its two control points, and where it stops. -/
structure Curve (α : Type) where
  start : α × α
  leave : α × α
  reach : α × α
  stop : α × α
  deriving DecidableEq

variable {α : Type}

/-- The command that draws a curve from its start. -/
def Curve.command (c : Curve α) : Command α :=
  .cubic c.leave.1 c.leave.2 c.reach.1 c.reach.2 c.stop.1 c.stop.2

/-- The curves of an outline that goes on at a point `here` and would close at `origin`. -/
def curvesFrom (origin here : α × α) : Outline α → List (Curve α)
  | [] => []
  | .move x y :: rest => curvesFrom (x, y) (x, y) rest
  | .line x y :: rest | .arc _ _ _ _ x y :: rest => curvesFrom origin (x, y) rest
  | .cubic x₁ y₁ x₂ y₂ x y :: rest => ⟨here, (x₁, y₁), (x₂, y₂), (x, y)⟩ :: curvesFrom origin (x, y) rest
  | .close :: rest => curvesFrom origin origin rest

/-- The curves of an outline. -/
def curvesOf : Outline α → List (Curve α)
  | .move x y :: rest => curvesFrom (x, y) (x, y) rest
  | _ => []

/-- The outline that draws curves one after the other from a point. -/
def through (first : α × α) (curves : List (Curve α)) (closed : Bool) : Outline α :=
  .move first.1 first.2 :: curves.map Curve.command ++ (if closed then [.close] else [])

/-- Whether every curve starts where the one before it stops, and the first one at a given point. -/
def Connected (here : α × α) : List (Curve α) → Prop
  | [] => True
  | c :: rest => c.start = here ∧ Connected c.stop rest

theorem curvesFrom_of_connected {origin here : α × α} {curves : List (Curve α)} (h : Connected here curves)
    (closed : Bool) :
    curvesFrom origin here (curves.map Curve.command ++ (if closed then [.close] else [])) = curves := by
  induction curves generalizing here with
  | nil => cases closed <;> rfl
  | cons c rest ih =>
    obtain ⟨rfl, connected⟩ := h
    simp only [List.map_cons, List.cons_append, Curve.command, curvesFrom]
    exact congrArg (c :: ·) (ih connected)

/-- Connected curves are those of the outline that draws them. -/
theorem curvesOf_through {first : α × α} {curves : List (Curve α)} (h : Connected first curves) (closed : Bool) :
    curvesOf (through first curves closed) = curves := by
  simp only [through, List.cons_append, curvesOf]
  exact curvesFrom_of_connected h closed

/-- Curves are connected if each of a sequence stops where the next one starts. -/
theorem connected_range {f : Nat → Curve α} (each : ∀ i, (f i).stop = (f (i + 1)).start) (i count : Nat) :
    Connected (f i).start ((List.range' i count).map f) := by
  induction count generalizing i with
  | zero => trivial
  | succ count ih =>
    rw [List.range'_succ, List.map_cons]
    refine ⟨rfl, ?_⟩
    rw [each]
    exact ih (i + 1)

end VectorGraph.Outline
