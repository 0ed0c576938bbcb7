import VectorGraph.Engine.State
import VectorGraph.Graph.Reach

/-!
The steps of the evaluation engine.

`Engine.start` opens a pass; from then on everything happens in the steps that `Engine.step`
describes, each of which is possible in some states only. A step also names the events that it has
made possible. Any order of possible steps is an execution; an agenda chooses one.

Inputs are taken side by side or one by one, as the settings say. Side by side, a node asks for all
sources and goes on when the last of them is finished. One by one, it asks for a source when the one
before is finished, and a failure other than a fault of the graph ends the node at once.
-/
namespace VectorGraph

inductive Event where
  /-- A node that was asked for begins. -/
  | begin (pass : Nat) (node : Label)
  /-- A node asks for all its sources. -/
  | launch (pass : Nat) (node : Label)
  /-- A node goes on, since the sources it awaits are finished. -/
  | proceed (pass : Nat) (node : Label)
  /-- The operator of a computation runs. -/
  | run (computation : Nat)
  /-- The back-end replies to a computation. -/
  | paint (computation : Nat) (reply : Except RasterFault Picture)
  /-- The result of a computation reaches a node that waits for it. -/
  | deliver (pass : Nat) (node : Label)
  /-- The target is finished, and the pass is closed. -/
  | close (pass : Nat)

/-- The engine after a step, and the events that the step has made possible. -/
structure Turn where
  engine : Engine
  due : List Event := []

namespace Gathering

/-- Whether the sources that the node awaits are finished. -/
def isReady (g : Gathering) (sideBySide : Bool) (p : Pass) : Bool :=
  if sideBySide then g.pending.isEmpty && g.inputs.all fun i => p.isFinished i.2
  else
    match g.pending with
    | [] => true
    | (_, source) :: _ => p.isFinished source

/-- Whether the node awaits a source. -/
def awaits (g : Gathering) (sideBySide : Bool) (source : Label) : Bool :=
  if sideBySide then g.inputs.any (·.2 == source)
  else (g.pending.head?.map (·.2)) == some source

end Gathering

namespace Engine

/-- The nodes of a pass that can go on because a source has been finished. -/
def released (e : Engine) (p : Pass) (source : Label) : List Label :=
  p.tasks.filterMap fun (node, progress) =>
    match progress with
    | .gathering needs =>
      let sideBySide := e.settings.concurrentSiblings
      if needs.awaits sideBySide source && needs.isReady sideBySide p then some node else none
    | _ => none

/-- Finishes a node of a pass. -/
def finish (e : Engine) (index : Nat) (p : Pass) (node : Label)
    (result : Except Failure Fragment) : Turn :=
  let p := p.set node (.finished result)
  { engine := e.setPass index p
    due := (if p.target = node then [.close index] else []) ++
      (e.released p node).map (.proceed index) }

/-- The parameters of a node as they are now. -/
def paramsOf (e : Engine) (node : Label) : Fields := ((e.graph.node? node).map (·.params)).getD []

/-- The key under which a node with the given inputs is looked up. -/
def keyFor (e : Engine) (resolution : Extent) (node : Node) (inputs : Inputs) : CacheKey where
  node := node.id
  resolution := resolution.count
  params := e.digest node.canonicalParams.toUTF8
  inputs := e.digest (inputsImage e.digest inputs)

/-- Looks up a node whose inputs are complete. -/
def lookUp (e : Engine) (index : Nat) (p : Pass) (node : Node) (inputs : Inputs) : Turn :=
  let store := e.storeOf p.evaluator
  let (grant, cache) := (e.cacheOf p.evaluator).request (e.keyFor p.resolution node inputs)
  let e := e.setCache p.evaluator cache
  match grant with
  | .found f => e.finish index p node.id (.ok f)
  | .joined ticket =>
    let isShared (c : Computation) : Bool := c.store == store && c.ticket == ticket
    { engine := { e.setPass index (p.set node.id (.waiting (e.computations.findIdx isShared))) with
        computations := e.computations.map fun c =>
          if isShared c then { c with waiters := c.waiters ++ [(index, node.id)] } else c } }
  | .started ticket =>
    let computation := e.computations.length
    { engine := { e.setPass index (p.set node.id (.waiting computation)) with
        computations := e.computations ++
          [{ store, ticket, pass := index, node, inputs, waiters := [(index, node.id)] }] }
      due := [.run computation] }

/-- Goes on with a node whose sources are finished: a failure of an input is passed on, then a
required socket without an input is reported, and then the node is looked up. -/
def conclude (e : Engine) (index : Nat) (p : Pass) (node : Label) (needs : Gathering) : Turn :=
  match p.collect needs.inputs with
  | .error failure => e.finish index p node (.error failure)
  | .ok inputs =>
    match needs.kind.requiredSockets.find? fun socket => !inputs.any (·.1 == socket) with
    | some socket => e.finish index p node (.error (.graph (.missingInput node socket)))
    | none => e.lookUp index p ⟨node, needs.kind, e.paramsOf node⟩ inputs

/-- Takes in the pending inputs one by one up to the first whose source is not finished. -/
def takeIn (e : Engine) (index : Nat) (p : Pass) (node : Label) (needs : Gathering) :
    List (Label × Label) → Turn
  | [] => e.conclude index p node needs
  | (socket, source) :: rest =>
    match p.result? source with
    | some (.error failure) =>
      if failure.isGraphFault then e.takeIn index p node needs rest
      else e.finish index p node (.error failure)
    | some (.ok _) => e.takeIn index p node needs rest
    | none =>
      let isNew := (p.progress? source).isNone
      let p := (p.set node (.gathering { needs with pending := (socket, source) :: rest })).ask source
      { engine := e.setPass index p
        due := if isNew then [.begin index source] else [] }

/-- The sockets of a node with their sources, in the order of their names. -/
def sortedInputs (e : Engine) (node : Label) : List (Label × Label) :=
  (e.graph.inputsOf node).mergeSort fun a b => !(b.1.nameText < a.1.nameText)

def begin (e : Engine) (index : Nat) (p : Pass) (node : Label) : Turn :=
  let p := { p with visited := p.visited ++ [node] }
  match e.graph.node? node with
  | none => e.finish index p node (.error .missingEntry)
  | some n =>
    let inputs := e.sortedInputs node
    let needs : Gathering := ⟨n.kind, inputs, inputs⟩
    if !e.settings.concurrentSiblings then e.takeIn index p node needs inputs
    else if inputs.isEmpty then e.conclude index p node needs
    else
      { engine := e.setPass index (p.set node (.gathering needs))
        due := [.launch index node] }

def launch (e : Engine) (index : Nat) (p : Pass) (node : Label) (needs : Gathering) : Turn :=
  let sources := (needs.inputs.map (·.2)).eraseDups
  let unknown := sources.filter fun source => (p.progress? source).isNone
  let needs := { needs with pending := [] }
  let p := sources.foldl Pass.ask (p.set node (.gathering needs))
  { engine := e.setPass index p
    due := unknown.map (.begin index) ++
      if needs.isReady true p then [.proceed index node] else [] }

/-- Ends a computation: the cache is told, and the result is on its way to all who wait. -/
def settle (e : Engine) (index : Nat) (c : Computation) (outcome : Outcome) : Turn :=
  let (result, cache) := (e.caches.getD c.store default).settle c.ticket outcome.result
  { engine := { e.report outcome.log with
      caches := e.caches.set c.store cache
      computations := e.computations.set index { c with stage := .ended result } }
    due := c.waiters.map fun (pass, node) => .deliver pass node }

/-- What the operator of a computation does at once, and the ids it leaves. -/
def workOf (e : Engine) (p : Pass) (c : Computation) : Except Failure Work × IdSource :=
  let context : Context := {
    settings := e.settings
    resolution := p.resolution
    canRender := e.canRender
    node := c.node.id.nameText }
  (c.node.kind.operator context c.node.params c.inputs).run.run p.ids

def run (e : Engine) (index : Nat) (c : Computation) (p : Pass) : Turn :=
  let line := "  Evaluating node " ++ c.node.id.nameText ++ " (" ++ c.node.kind.tag ++ ")"
  let (work, ids) := e.workOf p c
  let p := { p with computed := p.computed ++ [c.node.id], ids }
  let e := (e.report (if e.settings.verbose then [line] else [])).setPass c.pass p
  match work with
  | .error failure => e.settle index c { result := .error failure }
  | .ok (.done outcome) => e.settle index c outcome
  | .ok (.paint request resume) =>
    { engine := { e with
        computations := e.computations.set index { c with stage := .painting request resume }
        requests := e.requests ++ [request] } }

/-- Closes a pass. The evaluator keeps its record and never goes back with the counter. -/
def close (e : Engine) (index : Nat) (p : Pass) (result : Except Failure Fragment) : Turn :=
  { engine := { e.setPass index { p with result := some result } with
      evaluators := e.evaluators.modify p.evaluator fun v =>
        { v with
          counter := max v.counter p.ids.counter
          visited := p.visited
          computed := p.computed } } }

/-- The step that an event makes, if it is possible. -/
def step (e : Engine) : Event → Option Turn
  | .begin index node => do
    let p ← e.passes[index]?
    match p.progress? node with
    | some .fresh => some (e.begin index p node)
    | _ => none
  | .launch index node => do
    let p ← e.passes[index]?
    match p.progress? node with
    | some (.gathering needs) =>
      if e.settings.concurrentSiblings && !needs.pending.isEmpty then
        some (e.launch index p node needs)
      else none
    | _ => none
  | .proceed index node => do
    let p ← e.passes[index]?
    match p.progress? node with
    | some (.gathering needs) =>
      if needs.isReady e.settings.concurrentSiblings p then
        if e.settings.concurrentSiblings then some (e.conclude index p node needs)
        else some (e.takeIn index p node needs needs.pending)
      else none
    | _ => none
  | .run index => do
    let c ← e.computations[index]?
    let p ← e.passes[c.pass]?
    match c.stage with
    | .queued => some (e.run index c p)
    | _ => none
  | .paint index reply => do
    let c ← e.computations[index]?
    match c.stage with
    | .painting _ resume => some (e.settle index c (resume reply))
    | _ => none
  | .deliver index node => do
    let p ← e.passes[index]?
    match p.progress? node with
    | some (.waiting computation) =>
      match (e.computations[computation]?).map Computation.stage with
      | some (.ended result) => some (e.finish index p node result)
      | _ => none
    | _ => none
  | .close index => do
    let p ← e.passes[index]?
    match p.result, p.result? p.target with
    | none, some result => some (e.close index p result)
    | _, _ => none

/-- The resolution that a value gives. -/
def resolutionOf : Json → Except GraphFault Extent
  | .whole n => if 0 < n then .ok (.pixels n) else .error (.badResolution (.whole n))
  | .bool true => .ok (.truth true)
  | other => .error (.badResolution other)

/-- Opens a pass for a target, unless the resolution or the ancestry of the target is unsound. -/
def start (e : Engine) (evaluator : Nat) (target : Label) (resolution : Json) (salt : String) :
    Except GraphFault Turn := do
  let resolution ← resolutionOf resolution
  e.graph.checkAcyclic target
  let line := "Evaluating " ++ target.literal ++ " at " ++ resolution.literal ++ "px"
  let ids : IdSource := ⟨salt, (e.evaluators.getD evaluator default).counter⟩
  let pass : Pass := { evaluator, target, resolution, ids, tasks := [(target, .fresh)] }
  let e := e.report (if e.settings.verbose then [line] else [])
  return { engine := { e with passes := e.passes ++ [pass] }
           due := [.begin e.passes.length target] }

/-- The node that an evaluation is for: the target, unless a cutoff stands in its place. -/
def goal (target : Label) (cutoff : Option Label) : Label := cutoff.getD target

/-- Opens a pass for a target, up to a cutoff if there is one. -/
def startUpTo (e : Engine) (evaluator : Nat) (target : Label) (cutoff : Option Label) (resolution : Json)
    (salt : String) : Except GraphFault Turn :=
  e.start evaluator (goal target cutoff) resolution salt

end Engine

end VectorGraph
