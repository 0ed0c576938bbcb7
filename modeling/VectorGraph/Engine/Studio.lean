import VectorGraph.Engine.Agenda
import VectorGraph.Engine.Preview

/-!
Working with evaluators: orders for fragments, documents and previews, several of them at a time.

All orders are taken in turn, and checked as they are taken; what passes the check is evaluated
afterwards, side by side.
-/
namespace VectorGraph

/-- What an order asks for. -/
inductive Aim where
  | fragment
  | document
  | preview
  deriving DecidableEq, Repr

structure Order where
  evaluator : Nat
  aim : Aim
  target : Label
  /-- The resolution; a preview has its own. -/
  resolution : Json

inductive Product where
  | fragment (f : Fragment)
  | document (text : String)
  /-- A later preview has been requested meanwhile. -/
  | superseded

/-- An order that has been taken. -/
inductive Booking where
  | refused (result : Except Failure Product)
  /-- The pass of the order, and the number of the preview. -/
  | open (order : Order) (pass number : Nat)

structure Studio where
  engine : Engine
  /-- The preview sessions of the evaluators that have one. -/
  previews : List (Nat × Preview) := []

namespace Studio

def preview? (s : Studio) (evaluator : Nat) : Option Preview :=
  (s.previews.find? (·.1 == evaluator)).map (·.2)

/-- The preview session of an evaluator, which is opened at the given resolution if there is none. -/
def openPreview (s : Studio) (evaluator : Nat) (resolution : Json) : Preview × Studio :=
  match s.preview? evaluator with
  | some v => (v, s)
  | none =>
    let v := Preview.ofSettings s.engine.settings resolution
    (v, { s with previews := s.previews ++ [(evaluator, v)] })

def setPreview (s : Studio) (evaluator : Nat) (v : Preview) : Studio :=
  { s with previews := s.previews.map fun entry => if entry.1 == evaluator then (evaluator, v) else entry }

/-- Requests a rendering if the order is for a preview: its number and the resolution that counts. -/
def announce (s : Studio) (order : Order) : Nat × Json × Studio :=
  match order.aim with
  | .preview =>
    let (v, s) := s.openPreview order.evaluator order.resolution
    let (number, v) := v.request
    (number, v.resolution, s.setPreview order.evaluator v)
  | _ => (0, order.resolution, s)

/-- What becomes of the result of an evaluation. -/
def deliver (s : Studio) (order : Order) (number : Nat) (resolution : Extent)
    (result : Except Failure Fragment) : Except Failure Product × Studio :=
  match order.aim with
  | .fragment => (result.map .fragment, s)
  | .document =>
    (result.map fun f => .document (svgDocument f.markup f.defs resolution resolution resolution), s)
  | .preview =>
    match s.preview? order.evaluator with
    | none => (result.map .fragment, s)
    | some v =>
      let (answer, v) := v.resolve number result
      (answer.map fun f => (f.map Product.fragment).getD .superseded, s.setPreview order.evaluator v)

/-- Takes an order. -/
def take (s : Studio) (salt : Nat → String) (order : Order) : Booking × List Event × Studio :=
  let (number, resolution, s) := s.announce order
  let pass := s.engine.passes.length
  match s.engine.start order.evaluator order.target resolution (salt (pass + 1)) with
  | .ok turn => (.open order pass number, turn.due, { s with engine := turn.engine })
  | .error fault =>
    let (result, s) := s.deliver order number (.pixels 0) (.error (.graph fault))
    (.refused result, [], s)

/-- Hands out what an order has led to. -/
def handOut (s : Studio) : Booking → Except Failure Product × Studio
  | .refused result => (result, s)
  | .open order pass number =>
    match s.engine.passes[pass]? with
    | some { resolution, result := some result, .. } => s.deliver order number resolution result
    | _ => (.error .missingEntry, s)

/-- Carries out orders that come at the same time. -/
def carryOut (s : Studio) (backEnd : BackEnd) (salt : Nat → String) (orders : List Order) :
    List (Except Failure Product) × Studio :=
  let (bookings, openings, s) := orders.foldl
    (fun (bookings, openings, s) order =>
      let (booking, due, s) := s.take salt order
      (bookings ++ [booking], openings ++ due, s))
    ([], [], s)
  let s := { s with engine := s.engine.settleAll backEnd openings }
  bookings.foldl
    (fun (results, s) booking =>
      let (result, s) := s.handOut booking
      (results ++ [result], s))
    ([], s)

end Studio

end VectorGraph
