import VectorGraph.Cache.Basic

/-!
Callers at a cache.

A `Desk` is a cache with everyone who has asked it for a fragment. A caller who is not answered from
the entries waits for a computation. Computations end in any order, with a fragment or a failure,
and a caller may leave before that; the computation goes on for the others.
-/
namespace VectorGraph

/-- Where a caller stands. -/
inductive Caller where
  | waiting (ticket : Nat)
  | answered (result : Except Failure Fragment)
  /-- The caller has left without an answer. -/
  | left

structure Desk where
  cache : Cache
  /-- The callers in the order in which they came. -/
  callers : List Caller := []

namespace Desk

/-- A caller comes and asks for a key. A ticket is handed out when its computation has to be
started. -/
def call (d : Desk) (key : CacheKey) : Option Nat × Desk :=
  let (grant, cache) := d.cache.request key
  match grant with
  | .found f => (none, { cache, callers := d.callers ++ [.answered (.ok f)] })
  | .joined ticket => (none, { cache, callers := d.callers ++ [.waiting ticket] })
  | .started ticket => (some ticket, { cache, callers := d.callers ++ [.waiting ticket] })

/-- The caller leaves, unless answered already. -/
def leave (d : Desk) (caller : Nat) : Desk :=
  { d with callers := d.callers.modify caller fun
      | .waiting _ => .left
      | other => other }

/-- A computation ends, and all who wait for it are answered. -/
def finish (d : Desk) (ticket : Nat) (result : Except Failure Fragment) : Desk :=
  let (answer, cache) := d.cache.settle ticket result
  { cache
    callers := d.callers.map fun
      | .waiting t => if t = ticket then .answered answer else .waiting t
      | other => other }

/-- What someone wants from the cache, and what a computation for it would yield. -/
structure Call where
  key : CacheKey
  result : Except Failure Fragment
  /-- Whether the caller leaves before the computations end. -/
  leaves : Bool := false

/-- A computation that a call has started. -/
abbrev Job := Nat × Call

/-- All calls come in order. -/
def welcome (d : Desk) (calls : List Call) : List Job × Desk :=
  calls.foldl
    (fun (jobs, d) call =>
      match d.call call.key with
      | (some ticket, d) => (jobs ++ [(ticket, call)], d)
      | (none, d) => (jobs, d))
    ([], d)

/-- All calls come in order, then some callers leave, and then the computations end in the order of
their start. -/
def serve (cache : Cache) (calls : List Call) : List Job × Desk :=
  let (jobs, d) := welcome { cache } calls
  let d := calls.zipIdx.foldl (fun d (call, i) => if call.leaves then d.leave i else d) d
  (jobs, jobs.foldl (fun d (ticket, call) => d.finish ticket call.result) d)

end Desk

end VectorGraph
