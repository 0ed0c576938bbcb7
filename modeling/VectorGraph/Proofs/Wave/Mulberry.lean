import Mathlib.Data.Nat.ModEq
import Mathlib.Logic.Function.Iterate
import VectorGraph.Proofs.Wave.Fraction
import VectorGraph.Wave.Field

/-!
The Mulberry32 sequence in words of 32 bits.

The states and the mixing are those of arithmetic that wraps (`toNat_wordAt`, `toNat_mixWord`): the numbers of this
library are unbounded, and are reduced wherever a word would lose bits. The increment is odd, so the states run
through all words before one comes back (`iterate_advance_inj`). What is drawn for a seed is a map over the places in
the sequence (`draws_eq`, `drawOscillators_eq`), so that drawing more only adds to what fewer draws give.
-/
namespace VectorGraph

namespace Mulberry

/-! ## Words -/

/-- The state of the draw `n` for a seed, as a word. -/
def wordAt (seed : Int) (n : Nat) : UInt32 := .ofInt (seed + n * 0x6D2B79F5)

/-- The number drawn in a state, by operations on words only. -/
def mixWord (s : UInt32) : UInt32 :=
  let t := (s ^^^ (s >>> 15)) * (s ||| 1)
  let t := t ^^^ (t + (t ^^^ (t >>> 7)) * (t ||| 61))
  t ^^^ (t >>> 14)

theorem toNat_wordAt (seed : Int) (n : Nat) : (wordAt seed n).toNat = advance^[n] (seeded seed) := by
  have word (x : Int) : (UInt32.ofInt x).toNat = (x % states).toNat := by
    rw [UInt32.ofInt, UInt32.toNat_ofNat', states]
    omega
  induction n with
  | zero => rw [wordAt, word, seeded, Function.iterate_zero_apply, Nat.cast_zero, zero_mul, add_zero]
  | succ n ih =>
    rw [Function.iterate_succ_apply', ← ih, wordAt, wordAt, word, word, advance, increment, states]
    omega

theorem toNat_mixWord (s : UInt32) : (mixWord s).toNat = mix s.toNat := by
  have whole := (mixWord s).toNat_lt
  rw [mix, ← Nat.mod_eq_of_lt whole]
  simp [mixWord, states]

theorem mix_lt (state : Nat) : mix state < 2 ^ 32 := Nat.mod_lt _ (by decide)

/-! ## The period -/

theorem iterate_advance (state n : Nat) (small : state < states) :
    advance^[n] state = (state + n * increment) % states := by
  induction n with
  | zero => rw [Function.iterate_zero_apply, zero_mul, add_zero, Nat.mod_eq_of_lt small]
  | succ n ih =>
    rw [Function.iterate_succ_apply', ih, advance, Nat.mod_add_mod]
    ring_nf

/-- The increment is odd: two draws have one state only where a multiple of `2 ^ 32` draws lies between them. -/
theorem iterate_advance_inj {state i j : Nat} (small : state < states) :
    advance^[i] state = advance^[j] state ↔ i ≡ j [MOD states] := by
  have coprime : Nat.gcd states increment = 1 := by decide +kernel
  rw [iterate_advance state i small, iterate_advance state j small]
  constructor
  · intro same
    exact (Nat.ModEq.add_left_cancel' state same).cancel_right_of_coprime coprime
  · intro same
    exact (same.mul_right increment).add_left state

/-! ## Draws -/

theorem drawsFrom_eq (count : Nat) : ∀ state,
    drawsFrom count state = (List.range count).map fun i => mix (advance^[i + 1] state) := by
  induction count with
  | zero => exact fun _ => rfl
  | succ count ih =>
    intro state
    rw [drawsFrom, ih, List.range_succ_eq_map, List.map_cons, List.map_map]
    refine congrArg₂ List.cons ?_ (List.map_congr_left fun i _ => ?_)
    · rw [Nat.zero_add, Function.iterate_one]
    · rw [Function.comp_apply, Nat.succ_eq_add_one, Function.iterate_succ_apply advance (i + 1)]

theorem draws_eq (seed : Int) (count : Nat) :
    draws seed count = (List.range count).map fun i => (mixWord (wordAt seed (i + 1))).toNat := by
  rw [draws, drawsFrom_eq]
  simp only [toNat_mixWord, toNat_wordAt]

theorem seeded_lt (seed : Int) : seeded seed < states := by
  rw [seeded, states]
  omega

end Mulberry

namespace Wave

open Mulberry

/-- The oscillator `i` for a seed, the phase from the draw before the one for the speed. -/
def oscillatorAt (seed : Int) (i : Nat) : Oscillator Float where
  phase := fraction (mixWord (wordAt seed (2 * i + 1))).toNat * pi * 2
  speed := 0.5 + fraction (mixWord (wordAt seed (2 * i + 2))).toNat * 1.5

theorem pairUp_map (draw : Nat → Nat) (count : Nat) : ∀ first,
    drawOscillators.pairUp ((List.range' first (2 * count)).map draw) =
      (List.range count).map fun i =>
        ⟨fraction (draw (first + 2 * i)) * pi * 2, 0.5 + fraction (draw (first + 2 * i + 1)) * 1.5⟩ := by
  induction count with
  | zero => exact fun _ => rfl
  | succ count ih =>
    intro first
    have two : 2 * (count + 1) = 2 * count + 1 + 1 := by ring
    rw [two, List.range'_succ, List.range'_succ, List.map_cons, List.map_cons, drawOscillators.pairUp, ih,
      List.range_succ_eq_map, List.map_cons, List.map_map]
    refine congrArg₂ List.cons rfl (List.map_congr_left fun i _ => ?_)
    have place : first + 1 + 1 + 2 * i = first + 2 * (i + 1) := by ring
    rw [Function.comp_apply, Nat.succ_eq_add_one, place]

theorem drawOscillators_eq (seed : Int) (count : Nat) :
    drawOscillators seed count = (List.range count).map (oscillatorAt seed) := by
  rw [drawOscillators, draws_eq, List.range_eq_range', pairUp_map]
  refine List.map_congr_left fun i _ => ?_
  have second : 0 + 2 * i + 1 + 1 = 2 * i + 2 := by ring
  rw [second, Nat.zero_add, oscillatorAt]

end Wave

namespace Mulberry

/-- What is drawn for a seed. -/
structure IsReference (seed : Int) : Prop where
  /-- Draw for draw, it is what words give from the seed and so many increments. -/
  words : ∀ count, draws seed count = (List.range count).map fun i => (mixWord (wordAt seed (i + 1))).toNat
  /-- A draw becomes the double whose value is the draw over `2 ^ 32`. -/
  fractions : ∀ count, ∀ draw ∈ draws seed count, draw < 2 ^ 32 ∧
    ∃ b, FloatView.of (fraction draw) = .finite b ∧ b.value = draw / 2 ^ 32
  /-- Of `2 ^ 32` states after each other no two are equal. -/
  distinct : ∀ i j, i < j → j < i + 2 ^ 32 → advance^[i] (seeded seed) ≠ advance^[j] (seeded seed)
  /-- The state comes back with the next one. -/
  recurs : ∀ i, advance^[i + 2 ^ 32] (seeded seed) = advance^[i] (seeded seed)
  /-- Seeds that are equal modulo `2 ^ 32` draw the same oscillators. -/
  modular : ∀ seed' count, seed ≡ seed' [ZMOD 2 ^ 32] →
    Wave.drawOscillators seed count = Wave.drawOscillators seed' count
  /-- Drawing fewer oscillators gives the first ones. -/
  fewer : ∀ m n, m ≤ n → Wave.drawOscillators seed m = (Wave.drawOscillators seed n).take m
  length : ∀ count, (Wave.drawOscillators seed count).length = count

theorem draws_as_reference (seed : Int) : IsReference seed where
  words := draws_eq seed
  fractions := by
    intro count draw drawn
    rw [draws, drawsFrom_eq] at drawn
    obtain ⟨i, -, rfl⟩ := List.mem_map.mp drawn
    exact ⟨mix_lt _, fraction_value (mix_lt _)⟩
  distinct := by
    intro i j before near same
    have apart : i % states = j % states := (iterate_advance_inj (seeded_lt seed)).mp same
    rw [states] at apart
    omega
  recurs := by
    intro i
    exact (iterate_advance_inj (seeded_lt seed)).mpr Nat.add_modEq_right
  modular := by
    intro seed' count same
    have seeds : seeded seed = seeded seed' := congrArg Int.toNat same
    rw [Wave.drawOscillators, Wave.drawOscillators, draws, draws, seeds]
  fewer := by
    intro m n fewer
    rw [Wave.drawOscillators_eq, Wave.drawOscillators_eq, ← List.map_take, List.take_range, min_eq_left fewer]
  length := by
    intro count
    rw [Wave.drawOscillators_eq, List.length_map, List.length_range]

/-- A seed below zero counts as a word, too. -/
example : draws (-1) 2 = draws 4294967295 2 ∧ draws (-1) 2 = [3850105811, 813802916] := by decide +kernel

end Mulberry

end VectorGraph
