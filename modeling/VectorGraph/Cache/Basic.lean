import VectorGraph.Fragment
import VectorGraph.Graph.Reach

/-!
A bounded memory of fragments that shares work in progress.

Entries are kept in the order of their last use, the one used longest ago first, and the first ones
are dropped when there are more than the capacity allows. A request for a key is either answered
from the entries, or joins the computation of that key that is under way, or starts one. Whoever
waits for a computation holds its ticket.

The capacity may be negative. Then nothing can be stored, and a fragment that is to be stored ends
in a failure.
-/
namespace VectorGraph

/-- What a fragment of a node depends on: parameters and inputs are given by their digests. -/
structure CacheKey where
  node : Label
  resolution : Int
  params : String
  inputs : String
  deriving DecidableEq, Repr, Inhabited

structure Cache where
  capacity : Int
  /-- The entry used longest ago comes first. -/
  entries : List (CacheKey × Fragment) := []
  /-- The computations under way, by ticket. -/
  running : List (Nat × CacheKey) := []
  /-- The number of tickets issued so far, which is the next ticket. -/
  issued : Nat := 0
  /-- How many requests found an entry or joined a computation. -/
  hits : Nat := 0
  /-- How many requests started a computation. -/
  misses : Nat := 0
  deriving Inhabited

namespace Cache

/-- The fragment stored under a key. -/
def find? (c : Cache) (key : CacheKey) : Option Fragment :=
  (c.entries.find? (·.1 == key)).map (·.2)

/-- Makes an entry the one used last. -/
def touch (c : Cache) (key : CacheKey) : Cache :=
  { c with entries := c.entries.filter (·.1 != key) ++ c.entries.filter (·.1 == key) }

/-- The fragment stored under a key, whose entry counts as used. -/
def get (c : Cache) (key : CacheKey) : Option Fragment × Cache := (c.find? key, c.touch key)

/-- The last entries, as many as the capacity allows. -/
def keepRecent (c : Cache) (entries : List (CacheKey × Fragment)) : List (CacheKey × Fragment) :=
  entries.drop (entries.length - c.capacity.toNat)

/-- Stores a fragment under a key, as the entry used last. -/
def store (c : Cache) (key : CacheKey) (f : Fragment) : Cache :=
  { c with entries := c.keepRecent (c.entries.filter (·.1 != key) ++ [(key, f)]) }

/-- Whether fragments can be stored at all. -/
def accepts (c : Cache) : Bool := 0 ≤ c.capacity

/-- Stores a fragment, and tells whether that was possible. -/
def put (c : Cache) (key : CacheKey) (f : Fragment) : Except Failure Unit × Cache :=
  (if c.accepts then .ok () else .error .missingEntry, c.store key f)

/-! ## Shared computations -/

/-- The answer to a request. -/
inductive Grant where
  | found (fragment : Fragment)
  /-- The key is being computed. -/
  | joined (ticket : Nat)
  /-- The key is to be computed by whoever asked. -/
  | started (ticket : Nat)
  deriving DecidableEq, Repr

/-- The ticket of the computation of a key, if it is under way. -/
def ticketOf? (c : Cache) (key : CacheKey) : Option Nat :=
  (c.running.find? (·.2 == key)).map (·.1)

def request (c : Cache) (key : CacheKey) : Grant × Cache :=
  match c.find? key with
  | some f => (.found f, { c.touch key with hits := c.hits + 1 })
  | none =>
    match c.ticketOf? key with
    | some ticket => (.joined ticket, { c with hits := c.hits + 1 })
    | none =>
      (.started c.issued,
        { c with
          running := c.running ++ [(c.issued, key)]
          issued := c.issued + 1
          misses := c.misses + 1 })

/-- Ends a computation: its fragment is stored, a failure is not. The answer is what everyone who
waits for it gets. -/
def settle (c : Cache) (ticket : Nat) (result : Except Failure Fragment) :
    Except Failure Fragment × Cache :=
  match c.running.find? (·.1 == ticket) with
  | none => (result, c)
  | some (_, key) =>
    let c := { c with running := c.running.filter (·.1 != ticket) }
    match result with
    | .error failure => (.error failure, c)
    | .ok f =>
      let (stored, c) := c.put key f
      (stored.map fun _ => f, c)

/-! ## Removal -/

/-- Drops the entries of a node and tells their number. -/
def invalidateNode (c : Cache) (node : Label) : Nat × Cache :=
  ((c.entries.filter (·.1.node == node)).length,
    { c with entries := c.entries.filter (·.1.node != node) })

/-- Drops the entries of a node and of all nodes that depend on it, and tells their number. -/
def invalidate (c : Cache) (g : Graph) (node : Label) : Nat × Cache :=
  (g.descendants node).foldl
    (fun (count, c) dependent =>
      let (more, c) := c.invalidateNode dependent
      (count + more, c))
    (c.invalidateNode node)

/-- Drops all entries and counts from zero again. -/
def clear (c : Cache) : Cache := { c with entries := [], hits := 0, misses := 0 }

end Cache

end VectorGraph
