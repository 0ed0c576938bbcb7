import VectorGraph.Engine.Step

/-!
The order in which the engine takes its steps.

Events that have become possible stand in a queue, each with the number of rounds that it still has
to wait. The first one is taken off; if it has to wait longer it goes to the end, else its step is
made and what that makes possible is put at the end. The back-end replies at once.
-/
namespace VectorGraph

/-- Replies to renderings; the first argument counts the renderings from one. -/
abbrev BackEnd := Nat → RasterRequest → Except RasterFault Picture

/-- The events to come, with the number of rounds that each has to wait. -/
abbrev Agenda := List (Nat × Event)

/-- How many rounds an event waits after the one that has made it possible. A result reaches those
who wait for it a round later than other news; a node that takes its inputs side by side first hears
of every source and then of all of them, and of a source that was finished before it asked a round
earlier. -/
def latency (sideBySide : Bool) (cause : Event) : Event → Nat
  | .deliver _ _ => 2
  | .proceed _ _ =>
    if sideBySide then
      match cause with
      | .launch _ _ => 2
      | _ => 3
    else 1
  | _ => 1

namespace Engine

/-- The entries for the events that an event has made possible. -/
def entries (e : Engine) (cause : Event) (due : List Event) : Agenda :=
  due.map fun event => (latency e.settings.concurrentSiblings cause event, event)

/-- Lets the back-end reply to a computation that has just asked for pixels. -/
def serve (e : Engine) (backEnd : BackEnd) : Event → Option Turn
  | .run index => do
    match (← e.computations[index]?).stage with
    | .painting request _ => e.step (.paint index (backEnd e.requests.length request))
    | _ => none
  | _ => none

/-- The step of an event together with the reply that it may need. -/
def advance (e : Engine) (backEnd : BackEnd) (event : Event) : Option Turn := do
  let turn ← e.step event
  match turn.engine.serve backEnd event with
  | some reply => some { reply with due := turn.due ++ reply.due }
  | none => some turn

/-- Works through an agenda. -/
def follow (backEnd : BackEnd) : Nat → Agenda → Engine → Engine
  | 0, _, e => e
  | _ + 1, [], e => e
  | fuel + 1, (rounds, event) :: agenda, e =>
    if 1 < rounds then follow backEnd fuel (agenda ++ [(rounds - 1, event)]) e
    else
      match e.advance backEnd event with
      | none => follow backEnd fuel agenda e
      | some turn => follow backEnd fuel (agenda ++ e.entries event turn.due) turn.engine

/-- A bound on the entries that a pass takes off the agenda. For a node there is one beginning, one
launch, one run, one delivery of two rounds and one closing, and it goes on at most once for every
socket and once more, with at most three rounds each. -/
def passBound (g : Graph) : Nat := 9 * (g.nodes.length + g.edges.length + 1)

/-- Makes all steps that follow from the events given. -/
def settleAll (e : Engine) (backEnd : BackEnd) (openings : List Event) : Engine :=
  follow backEnd (openings.length * passBound e.graph) (openings.map fun event => (1, event)) e

end Engine

end VectorGraph
