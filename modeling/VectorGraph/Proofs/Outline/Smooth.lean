import Mathlib.Algebra.Field.Rat
import Mathlib.Algebra.Group.Prod
import Mathlib.Data.List.Rotate
import VectorGraph.Outline.Spline
import VectorGraph.Proofs.Outline.Curves

/-!
Splines are smooth.

The tangent at a point is a quarter of the way between its neighbours, times the tension there. The curve between two
neighbours leaves the first along its tangent and reaches the second against its own, so that two curves that share a
point have handles there that are equal and opposite. `spline_interpolates` says so for every number of points, in
exact arithmetic.
-/
namespace VectorGraph.Outline

/-! ## The ring of points -/

section Ring

variable {α : Type} [Inhabited α] {points : List (SplinePoint α)}

/-- A point of the ring, counted modulo the number of points. -/
def ringAt (points : List (SplinePoint α)) (i : ℤ) : SplinePoint α := points[(i % points.length).toNat]!

theorem ringPoint_toArray (i : Nat) : ringPoint points.toArray i = ringAt points i := by
  have index : ((i : ℤ) % points.length).toNat = i % points.length := by omega
  rw [ringAt, index]
  simp [ringPoint]

theorem ringAt_congr {i j : ℤ} (same : i % points.length = j % points.length) :
    ringAt points i = ringAt points j := by
  rw [ringAt, ringAt, same]

theorem ringAt_add_length (i : ℤ) : ringAt points (i + points.length) = ringAt points i :=
  ringAt_congr (Int.add_emod_right i points.length)

theorem ringPoint_after (i : Nat) : ringPoint points.toArray (i + 1) = ringAt points (i + 1) :=
  ringPoint_toArray (i + 1)

/-- The point before a point, counted without going below zero. -/
theorem ringPoint_before (one : 1 ≤ points.length) (i : Nat) :
    ringPoint points.toArray (i + points.length - 1) = ringAt points (i - 1) := by
  rw [ringPoint_toArray, ← ringAt_add_length (i - 1 : ℤ)]
  congr 1
  omega

theorem ringAt_rotate (one : 1 ≤ points.length) (k : Nat) (i : ℤ) :
    ringAt (points.rotate k) i = ringAt points (i + k) := by
  have positive : (0 : ℤ) < points.length := by omega
  have nonneg := Int.emod_nonneg i positive.ne'
  have below := Int.emod_lt_of_pos i positive
  have nonneg' := Int.emod_nonneg (i + k) positive.ne'
  have below' := Int.emod_lt_of_pos (i + k) positive
  have index : ((i % points.length).toNat + k) % points.length = ((i + k) % points.length).toNat := by
    refine Int.natCast_inj.mp ?_
    rw [Int.natCast_emod, Nat.cast_add, Int.toNat_of_nonneg nonneg, Int.toNat_of_nonneg nonneg', Int.emod_add_emod]
  rw [ringAt, ringAt, List.length_rotate, getElem!_pos _ _ (by rw [List.length_rotate]; omega),
    getElem!_pos _ _ (by omega), List.getElem_rotate]
  simp only [index]

end Ring

/-! ## Tangents -/

section Role

variable {α : Type} {tension : Tension α}

/-- The tension at a point of a role; what is no inner point is an outer one. -/
def Tension.ofRole (tension : Tension α) (role : Option Role) : α :=
  match tension with
  | .uniform t => t
  | .byRole inner outer => if role = some .inner then inner else outer

theorem at_eq_ofRole (role : Option Role) : tension.at role = tension.ofRole role := by
  cases tension with
  | uniform t => rfl
  | byRole inner outer =>
    match role with
    | none | some .inner | some .outer => rfl

end Role

section Exact

variable {K : Type} [DivisionRing K] [Inhabited K] {points : List (SplinePoint K)} {tension : Tension K}

def SplinePoint.position (p : SplinePoint K) : K × K := (p.x, p.y)

/-- The tension at a point of the ring. -/
def tensionAt (tension : Tension K) (points : List (SplinePoint K)) (i : ℤ) : K :=
  tension.ofRole (ringAt points i).role

/-- The tangent at a point of the ring. -/
def tangent (tension : Tension K) (points : List (SplinePoint K)) (i : ℤ) : K × K :=
  let across := (ringAt points (i + 1)).position - (ringAt points (i - 1)).position
  (across.1 * tensionAt tension points i / 4, across.2 * tensionAt tension points i / 4)

/-- The curve between a point of the ring and the next one, along the tangents at both. -/
def bow (tension : Tension K) (points : List (SplinePoint K)) (i : ℤ) : Curve K where
  start := (ringAt points i).position
  leave := (ringAt points i).position + tangent tension points i
  reach := (ringAt points (i + 1)).position - tangent tension points (i + 1)
  stop := (ringAt points (i + 1)).position

/-- The curves from point to point, back to the first one if the outline is closed. -/
def bows (tension : Tension K) (points : List (SplinePoint K)) (closed : Bool) : List (Curve K) :=
  (List.range (if closed then points.length else points.length - 1)).map fun i : Nat => bow tension points i

theorem handle_eq_tangent (one : 1 ≤ points.length) (i : Nat) :
    handle (1 / 4) tension points.toArray i = tangent tension points i := by
  simp only [handle, List.size_toArray, ringPoint_before one, ringPoint_after, ringPoint_toArray, at_eq_ofRole,
    tangent, tensionAt, SplinePoint.position, Prod.mk_sub_mk, mul_one_div]

theorem curve_eq_command (one : 1 ≤ points.length) (i : Nat) :
    curve (1 / 4) tension points.toArray i = (bow tension points i).command := by
  simp only [curve, handle_eq_tangent one, ringPoint_after, ringPoint_toArray]
  rfl

/-! ## The outline -/

/-- What splines draw if the tensions are not so small that the segments are straight. -/
theorem splineWith_eq_through {small : K → Bool} (two : 2 ≤ points.length) (curved : tension.isStraight small = false)
    (closed : Bool) :
    splineWith (1 / 4) small points.toArray tension closed =
      through (ringAt points 0).position (bows tension points closed) closed := by
  have few : ¬ points.length < 2 := by omega
  have curves : curve (1 / 4) tension points.toArray = fun i : Nat => (bow tension points i).command :=
    funext (curve_eq_command (by omega))
  have first : ringPoint points.toArray 0 = ringAt points 0 := ringPoint_toArray 0
  simp only [splineWith, List.size_toArray, if_neg few, curved, Bool.false_eq_true, if_false, curves, first, through,
    bows, List.map_map]
  rfl

theorem connected_bows (closed : Bool) : Connected (ringAt points 0).position (bows tension points closed) := by
  rw [bows, List.range_eq_range']
  exact connected_range (f := fun i : Nat => bow tension points i) (fun i => by simp [bow]) 0 _

/-- A point of the ring is passed without a kink: one curve reaches it and the other leaves it, with handles that are
equal and opposite. -/
structure Flows (c d : Curve K) : Prop where
  meets : c.stop = d.start
  opposite : d.leave - d.start = -(c.reach - c.stop)

theorem flows_bow (i : ℤ) : Flows (bow tension points i) (bow tension points (i + 1)) where
  meets := rfl
  opposite := by simp [bow]

/-! ## Turning the ring -/

section Turned

variable {turned : List (SplinePoint K)} {k : ℤ}

theorem tangent_of_shift (shift : ∀ i, ringAt turned i = ringAt points (i + k)) (i : ℤ) :
    tangent tension turned i = tangent tension points (i + k) := by
  have after : ringAt turned (i + 1) = ringAt points (i + k + 1) := by rw [shift, add_right_comm]
  have before : ringAt turned (i - 1) = ringAt points (i + k - 1) := by rw [shift, sub_add_eq_add_sub]
  rw [tangent, tangent, tensionAt, tensionAt, after, before, shift]

/-- Counted from another point, the ring has the same curves. -/
theorem bow_of_shift (shift : ∀ i, ringAt turned i = ringAt points (i + k)) (i : ℤ) :
    bow tension turned i = bow tension points (i + k) := by
  have after : ringAt turned (i + 1) = ringAt points (i + k + 1) := by rw [shift, add_right_comm]
  have tangentAfter : tangent tension turned (i + 1) = tangent tension points (i + k + 1) := by
    rw [tangent_of_shift shift, add_right_comm]
  simp only [bow, after, tangentAfter, tangent_of_shift shift, shift i]

end Turned

/-- Indices that are the same around the ring have the same curve. -/
theorem bow_congr {i j : ℤ} (same : i % points.length = j % points.length) :
    bow tension points i = bow tension points j := by
  have whole : (j - i) % points.length = 0 := Int.emod_eq_emod_iff_emod_sub_eq_zero.mp same.symm
  have shift : ∀ k, ringAt points k = ringAt points (k + (j - i)) := fun k =>
    ringAt_congr (by rw [Int.add_emod, whole, add_zero, Int.emod_emod])
  rw [bow_of_shift shift, add_sub_cancel]

/-- The curves of a closed list that is rotated are those of the list, rotated. -/
theorem bows_rotate (one : 1 ≤ points.length) (k : Nat) :
    bows tension (points.rotate k) true = (bows tension points true).rotate k := by
  refine List.ext_getElem (by simp [bows]) fun i _ _ => ?_
  -- past the end of the list both sides go on from its start
  have around : bow tension points (i + k) = bow tension points ((i + k) % points.length : Nat) :=
    bow_congr (by push_cast; rw [Int.emod_emod])
  simp only [bows, if_true, List.getElem_rotate, List.getElem_map, List.getElem_range, List.length_map,
    List.length_range, bow_of_shift (ringAt_rotate one k), around]

/-! ## The whole spline -/

/-- What the curves of a spline through a ring of points have to be. -/
structure Interpolates (small : K → Bool) (tension : Tension K) (points : List (SplinePoint K)) (closed : Bool)
    (curves : List (Curve K)) : Prop where
  /-- The outline starts at the first point and draws the curves; it is closed if the spline is. -/
  drawn : splineWith (1 / 4) small points.toArray tension closed =
    through (ringAt points 0).position curves closed
  /-- Whoever follows the outline finds the curves. -/
  followed : curvesOf (splineWith (1 / 4) small points.toArray tension closed) = curves
  count : curves.length = if closed then points.length else points.length - 1
  /-- Each curve runs from one point to the next, along the tangents. -/
  tangents : ∀ i (h : i < curves.length), curves[i] = bow tension points i
  /-- There is no kink where a curve goes over into the next one. -/
  inside : ∀ i (h : i + 1 < curves.length), Flows curves[i] curves[i + 1]
  /-- If the outline is closed there is none at the first point either. -/
  around : closed = true → ∃ first last, curves.head? = some first ∧ curves.getLast? = some last ∧ Flows last first
  /-- A point without tension has the handle of the curve that leaves it on itself. -/
  sharpLeave : ∀ i (h : i < curves.length), tensionAt tension points i = 0 → curves[i].leave = curves[i].start
  /-- It has the handle of the curve that reaches it on itself too. -/
  sharpReach : ∀ i (h : i < curves.length), tensionAt tension points (i + 1) = 0 → curves[i].reach = curves[i].stop
  /-- A closed spline whose points are rotated has the same curves, rotated. -/
  rotated : closed = true → ∀ k : Nat, splineWith (1 / 4) small (points.rotate k).toArray tension true =
    through (ringAt points k).position (curves.rotate k) true

theorem length_bows (closed : Bool) :
    (bows tension points closed).length = if closed then points.length else points.length - 1 := by
  simp [bows]

theorem getElem_bows {closed : Bool} (i : Nat) (h : i < (bows tension points closed).length) :
    (bows tension points closed)[i] = bow tension points i := by
  simp [bows]

theorem tangent_eq_zero {i : ℤ} (sharp : tensionAt tension points i = 0) : tangent tension points i = 0 := by
  rw [tangent, sharp, mul_zero, mul_zero, zero_div, Prod.mk_zero_zero]

/-- The last curve of a closed spline goes over into the first one. -/
theorem flows_around (one : 1 ≤ points.length) : ∃ first last, (bows tension points true).head? = some first ∧
    (bows tension points true).getLast? = some last ∧ Flows last first := by
  have positive : 0 < (bows tension points true).length := by
    rw [length_bows]
    exact one
  refine ⟨bow tension points 0, bow tension points (points.length - 1 : ℤ), ?_, ?_, ?_⟩
  · rw [List.head?_eq_getElem?, List.getElem?_eq_getElem positive, getElem_bows]
    rfl
  · rw [List.getLast?_eq_getElem?, List.getElem?_eq_getElem (Nat.sub_one_lt_of_lt positive), getElem_bows,
      length_bows, if_pos rfl, Nat.cast_sub one]
    rfl
  · have next : bow tension points ((points.length - 1 : ℤ) + 1) = bow tension points 0 :=
      bow_congr (by rw [sub_add_cancel, Int.emod_self, Int.zero_emod])
    rw [← next]
    exact flows_bow _

theorem spline_interpolates {small : K → Bool} {points : List (SplinePoint K)} {tension : Tension K}
    (two : 2 ≤ points.length) (curved : tension.isStraight small = false) (closed : Bool) :
    Interpolates small tension points closed (bows tension points closed) where
  drawn := splineWith_eq_through two curved closed
  followed := by
    rw [splineWith_eq_through two curved closed]
    exact curvesOf_through (connected_bows closed) closed
  count := length_bows closed
  tangents := getElem_bows
  inside := fun i h => by
    rw [getElem_bows, getElem_bows]
    exact flows_bow i
  around := by
    rintro rfl
    exact flows_around (by omega)
  sharpLeave := fun i h sharp => by
    rw [getElem_bows]
    simp [bow, tangent_eq_zero sharp]
  sharpReach := fun i h sharp => by
    rw [getElem_bows]
    simp [bow, tangent_eq_zero sharp]
  rotated := by
    rintro rfl k
    have first : ringAt (points.rotate k) 0 = ringAt points k := by rw [ringAt_rotate (by omega), zero_add]
    rw [splineWith_eq_through (by rwa [List.length_rotate]) curved true, first, bows_rotate (by omega)]

/-- A drop: its tip has no tension. -/
def teardrop : List (SplinePoint ℚ) := [⟨0, 0, some .inner⟩, ⟨3, 4, none⟩, ⟨-3, 4, some .outer⟩]

theorem teardrop_interpolates : 2 ≤ teardrop.length ∧ (Tension.byRole (0 : ℚ) 1).isStraight (· ≤ 1 / 100) = false ∧
    Interpolates (· ≤ 1 / 100) (.byRole 0 1) teardrop true (bows (.byRole 0 1) teardrop true) := by
  have two : 2 ≤ teardrop.length := by decide
  have curved : (Tension.byRole (0 : ℚ) 1).isStraight (· ≤ 1 / 100) = false := by decide +kernel
  exact ⟨two, curved, spline_interpolates two curved true⟩

end Exact

end VectorGraph.Outline
