import VectorGraph.Cache.Basic
import VectorGraph.Operator.Registry

/-!
The state of the evaluation engine.

An evaluation of a target is a *pass*. A pass asks for the target, every node asks for its sources,
and each node is evaluated at most once in a pass. What a node yields comes from the cache of its
evaluator or from a *computation*, a run of the operator of the node. Passes overlap, and
computations are shared by passes of one cache.

Several evaluators work on one graph. An evaluator keeps the counter for ids, so that the ids of a
pass do not repeat those of earlier passes, and the record of the pass that was closed last.
-/
namespace VectorGraph

/-- A node that gathers its inputs. -/
structure Gathering where
  kind : Kind
  /-- The sockets with their sources, in the order of their names. -/
  inputs : List (Label × Label)
  /-- What has not been taken in yet: when inputs are taken one by one, the first of these is awaited.
  -/
  pending : List (Label × Label)

/-- How far a node has come in a pass. -/
inductive Progress where
  /-- Asked for, but not begun. -/
  | fresh
  | gathering (needs : Gathering)
  /-- The node waits for a computation. -/
  | waiting (computation : Nat)
  | finished (result : Except Failure Fragment)

structure Pass where
  evaluator : Nat
  target : Label
  resolution : Extent
  ids : IdSource
  /-- The nodes asked for so far, in the order in which they were asked for. -/
  tasks : List (Label × Progress) := []
  /-- The nodes begun so far. -/
  visited : List Label := []
  /-- The nodes whose operator was run by this pass. -/
  computed : List Label := []
  /-- The outcome of a pass that is closed. -/
  result : Option (Except Failure Fragment) := none

namespace Pass

def progress? (p : Pass) (node : Label) : Option Progress :=
  (p.tasks.find? (·.1 == node)).map (·.2)

/-- What a finished node has yielded. -/
def result? (p : Pass) (node : Label) : Option (Except Failure Fragment) :=
  match p.progress? node with
  | some (.finished result) => some result
  | _ => none

def isFinished (p : Pass) (node : Label) : Bool := (p.result? node).isSome

/-- Records how far a node has come. -/
def set (p : Pass) (node : Label) (progress : Progress) : Pass :=
  { p with tasks := p.tasks.map fun task => if task.1 == node then (node, progress) else task }

/-- Asks for a node. -/
def ask (p : Pass) (node : Label) : Pass :=
  if (p.progress? node).isSome then p else { p with tasks := p.tasks ++ [(node, .fresh)] }

/-- The inputs of a node whose sources are finished; the failure of the first socket that failed. -/
def collect (p : Pass) (inputs : List (Label × Label)) : Except Failure Inputs :=
  inputs.mapM fun (socket, source) =>
    match p.result? source with
    | some result => result.map fun f => (socket.nameText, f)
    | none => .error .missingEntry

end Pass

/-- How far a computation has come. -/
inductive Stage where
  | queued
  /-- The operator needs pixels. -/
  | painting (request : RasterRequest) (resume : Except RasterFault Picture → Outcome)
  | ended (result : Except Failure Fragment)

/-- A run of an operator. The parameters and the inputs are those at the time of the request. -/
structure Computation where
  /-- The cache that asked for it, and the ticket that it issued. -/
  store : Nat
  ticket : Nat
  /-- The pass that runs it. -/
  pass : Nat
  node : Node
  inputs : Inputs
  stage : Stage := .queued
  /-- The passes and nodes that wait for it, in the order in which they came. -/
  waiters : List (Nat × Label)

structure Evaluator where
  /-- The index of its cache. -/
  store : Nat
  /-- The highest number that a closed pass has used in an id. -/
  counter : Int := 0
  /-- The nodes visited and the nodes computed by the pass that was closed last. -/
  visited : List Label := []
  computed : List Label := []
  deriving Inhabited

structure Engine where
  settings : Settings
  /-- Whether there is a back-end that renders. -/
  canRender : Bool
  digest : Digest
  graph : Graph := {}
  caches : List Cache := []
  evaluators : List Evaluator := []
  passes : List Pass := []
  computations : List Computation := []
  /-- The lines reported so far. -/
  log : List String := []
  /-- The renderings asked for so far. -/
  requests : List RasterRequest := []

namespace Engine

def setPass (e : Engine) (index : Nat) (p : Pass) : Engine :=
  { e with passes := e.passes.set index p }

def report (e : Engine) (lines : List String) : Engine := { e with log := e.log ++ lines }

/-- The index of the cache that an evaluator uses. -/
def storeOf (e : Engine) (evaluator : Nat) : Nat := (e.evaluators.getD evaluator default).store

/-- The cache that an evaluator uses. -/
def cacheOf (e : Engine) (evaluator : Nat) : Cache :=
  e.caches.getD (e.storeOf evaluator) default

/-- Replaces the cache that an evaluator uses. -/
def setCache (e : Engine) (evaluator : Nat) (c : Cache) : Engine :=
  { e with caches := e.caches.set (e.storeOf evaluator) c }

/-- Drops what the cache of an evaluator holds for a node and all nodes that depend on it, and tells
the number of entries. -/
def invalidate (e : Engine) (evaluator : Nat) (node : Label) : Nat × Engine :=
  let (count, c) := (e.cacheOf evaluator).invalidate e.graph node
  (count, e.setCache evaluator c)

/-- Empties the cache of an evaluator. -/
def clearCache (e : Engine) (evaluator : Nat) : Engine :=
  e.setCache evaluator (e.cacheOf evaluator).clear

/-- A further evaluator. It uses the offered cache if there are entries in it, and a new one
otherwise. -/
def addEvaluator (e : Engine) (offered : Option Nat) : Engine :=
  let useful := offered.filter fun store => !(e.caches.getD store default).entries.isEmpty
  match useful with
  | some store => { e with evaluators := e.evaluators ++ [{ store }] }
  | none =>
    { e with
      caches := e.caches ++ [{ capacity := e.settings.maxCacheEntries }]
      evaluators := e.evaluators ++ [{ store := e.caches.length }] }

end Engine

end VectorGraph
