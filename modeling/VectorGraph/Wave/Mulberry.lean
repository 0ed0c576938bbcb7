/-!
The Mulberry32 sequence of pseudo-random numbers.

The state counts up in steps of a fixed increment modulo `2 ^ 32`; a draw mixes its bits by two
multiplications and is a fraction with denominator `2 ^ 32`.
-/
namespace VectorGraph.Mulberry

/-- The number of states. -/
def states : Nat := 4294967296

def increment : Nat := 0x6D2B79F5

/-- The first state for a seed; only the seed's remainder counts. -/
def seeded (seed : Int) : Nat := (seed % states).toNat

def advance (state : Nat) : Nat := (state + increment) % states

/-- The number drawn in a state, below `2 ^ 32`. -/
def mix (state : Nat) : Nat :=
  let t := (state ^^^ (state >>> 15)) * (state ||| 1) % states
  let t := t ^^^ ((t + (t ^^^ (t >>> 7)) * (t ||| 61) % states) % states)
  (t ^^^ (t >>> 14)) % states

/-- The first `count` draws after a state, with the state that they lead to. -/
def drawsFrom : Nat → Nat → List Nat
  | 0, _ => []
  | count + 1, state => mix (advance state) :: drawsFrom count (advance state)

/-- The first `count` draws for a seed. -/
def draws (seed : Int) (count : Nat) : List Nat := drawsFrom count (seeded seed)

/-- A draw as a fraction of one. -/
def fraction (draw : Nat) : Float := Float.ofNat draw / 4294967296

end VectorGraph.Mulberry
