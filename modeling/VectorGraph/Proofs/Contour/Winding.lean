import Mathlib.Algebra.BigOperators.Group.List.Basic
import Mathlib.Algebra.Order.Field.Rat
import Mathlib.Tactic.FieldSimp
import Mathlib.Tactic.Linarith
import Mathlib.Tactic.NormNum
import VectorGraph.Proofs.Contour.Outline

/-!
How often the outline of a grid goes around a sample.

A ray from a sample to the left runs along a row of samples, and the segments that cross it end or start on that
row, between two samples. One goes up over the ray where a filled sample follows an empty one, and one comes down
where an empty sample follows a filled one (`winding_cell`). So the signed crossings up to a sample telescope to
whether it is filled, as the ray ends at an empty border (`winding_segments`).
-/
namespace VectorGraph.Contour

/-! ## Signed crossings -/

/-- A point of the plane. The second coordinate grows downwards. -/
abbrev Point := Rat × Rat

/-- Where the line through a segment has a given height. -/
def abscissa (s : Point × Point) (height : Rat) : Rat :=
  s.1.1 + (height - s.1.2) * (s.2.1 - s.1.1) / (s.2.2 - s.1.2)

/-- How a segment crosses the ray from a point to the left: one if it goes up over the ray, minus one if it comes
down over it. An end at the height of the ray counts as lying above it. -/
def crossing (q : Point) (s : Point × Point) : Int :=
  if s.2.2 ≤ q.2 ∧ q.2 < s.1.2 ∧ abscissa s q.2 < q.1 then 1
  else if s.1.2 ≤ q.2 ∧ q.2 < s.2.2 ∧ abscissa s q.2 < q.1 then -1
  else 0

/-- The winding number of segments around a point. -/
def winding (q : Point) (path : List (Point × Point)) : Int := (path.map (crossing q)).sum

/-- The number of segments that cross the ray from a point to the left. -/
def crossings (q : Point) (path : List (Point × Point)) : Nat := path.countP fun s => crossing q s != 0

variable {q : Point} {s : Point × Point} {path : List (Point × Point)}

theorem winding_cons : winding q (s :: path) = crossing q s + winding q path := by
  rw [winding, List.map_cons, List.sum_cons, winding]

theorem winding_append (path' : List (Point × Point)) :
    winding q (path ++ path') = winding q path + winding q path' := by
  rw [winding, List.map_append, List.sum_append, winding, winding]

theorem winding_perm {path' : List (Point × Point)} (h : path.Perm path') : winding q path = winding q path' :=
  (h.map (crossing q)).sum_eq

theorem winding_eq_zero (h : ∀ s ∈ path, crossing q s = 0) : winding q path = 0 := by
  induction path with
  | nil => rfl
  | cons s path ih =>
    obtain ⟨first, rest⟩ := List.forall_mem_cons.mp h
    rw [winding_cons, first, ih rest, add_zero]

theorem winding_flatMap {α : Type} (l : List α) (f : α → List (Point × Point)) :
    winding q (l.flatMap f) = (l.map fun a => winding q (f a)).sum := by
  induction l with
  | nil => rfl
  | cons a l ih => rw [List.flatMap_cons, winding_append, ih, List.map_cons, List.sum_cons]

/-- The winding number is odd if an odd number of segments cross the ray. -/
theorem crossings_mod_two (q : Point) (path : List (Point × Point)) :
    (crossings q path : Int) % 2 = winding q path % 2 := by
  induction path with
  | nil => rfl
  | cons s path ih =>
    have one : crossing q s = 1 ∨ crossing q s = -1 ∨ crossing q s = 0 := by
      unfold crossing
      split
      · exact .inl rfl
      · split
        · exact .inr (.inl rfl)
        · exact .inr (.inr rfl)
    unfold crossings at ih ⊢
    rw [winding_cons, List.countP_cons]
    rcases one with up | down | none
    · rw [up, if_pos (by decide)]
      omega
    · rw [down, if_pos (by decide)]
      omega
    · rw [none, if_neg (by decide)]
      omega

/-- A segment goes up over the ray where it ends at its height. -/
theorem crossing_of_end (lands : s.2.2 = q.2) (below : q.2 < s.1.2) :
    crossing q s = if s.2.1 < q.1 then 1 else 0 := by
  have meets : abscissa s q.2 = s.2.1 := by
    have steep : s.2.2 - s.1.2 ≠ 0 := by
      rw [lands]
      exact (sub_neg.mpr below).ne
    rw [abscissa, ← lands, mul_comm, mul_div_assoc, div_self steep, mul_one, add_sub_cancel]
  have up : ¬(s.1.2 ≤ q.2 ∧ q.2 < s.2.2 ∧ abscissa s q.2 < q.1) := fun h => absurd below (not_lt.mpr h.1)
  unfold crossing
  rw [if_neg up, meets]
  simp only [lands, le_refl, below, true_and]

/-- A segment comes down over the ray where it starts at its height. -/
theorem crossing_of_start (leaves : s.1.2 = q.2) (below : q.2 < s.2.2) :
    crossing q s = if s.1.1 < q.1 then -1 else 0 := by
  have meets : abscissa s q.2 = s.1.1 := by
    rw [abscissa, leaves, sub_self, zero_mul, zero_div, add_zero]
  have down : ¬(s.2.2 ≤ q.2 ∧ q.2 < s.1.2 ∧ abscissa s q.2 < q.1) := fun h => absurd below (not_lt.mpr h.1)
  unfold crossing
  rw [if_neg down, meets]
  simp only [leaves, le_refl, below, true_and]

theorem crossing_of_above (first : s.1.2 ≤ q.2) (second : s.2.2 ≤ q.2) : crossing q s = 0 := by
  unfold crossing
  rw [if_neg fun h => absurd h.2.1 (not_lt.mpr first), if_neg fun h => absurd h.2.1 (not_lt.mpr second)]

theorem crossing_of_below (first : q.2 < s.1.2) (second : q.2 < s.2.2) : crossing q s = 0 := by
  unfold crossing
  rw [if_neg fun h => absurd second (not_lt.mpr h.1), if_neg fun h => absurd first (not_lt.mpr h.1)]

/-! ## Along a row of samples -/

/-- Where a point of a grid lies, at scale one. -/
def position (p : HalfPoint) : Point := (p.1 / 2, p.2 / 2)

/-- The segment between the positions of two points. -/
def located (s : HalfPoint × HalfPoint) : Point × Point := (position s.1, position s.2)

/-- Where a sample lies. -/
def sample (x y : Nat) : Point := (x, y)

theorem half_lt (n m : Nat) : (n : Rat) / 2 < m ↔ n < 2 * m := by
  rw [div_lt_iff₀ two_pos, mul_comm]
  exact_mod_cast Iff.rfl

theorem lt_half (n m : Nat) : (m : Rat) < n / 2 ↔ 2 * m < n := by
  rw [lt_div_iff₀ two_pos, mul_comm]
  exact_mod_cast Iff.rfl

theorem half_two_mul (n : Nat) : ((2 * n : Nat) : Rat) / 2 = n := by
  rw [Nat.cast_mul, Nat.cast_two, mul_div_cancel_left₀ _ two_ne_zero]

variable {g : Grid} {x y X Y : Nat}

/-- A segment comes down from the row of a sample where it starts on the row. -/
theorem crossing_down {a b c : Nat} (below : 2 * y < c) :
    crossing (sample X y) (located ((a, 2 * y), (b, c))) = if a < 2 * X then -1 else 0 := by
  rw [crossing_of_start]
  · exact if_congr (half_lt a X) rfl rfl
  · exact half_two_mul y
  · exact (lt_half c y).mpr below

/-- A segment goes up to the row of a sample where it ends on the row. -/
theorem crossing_up {a b c : Nat} (below : 2 * y < c) :
    crossing (sample X y) (located ((a, c), (b, 2 * y))) = if b < 2 * X then 1 else 0 := by
  rw [crossing_of_end]
  · exact if_congr (half_lt b X) rfl rfl
  · exact half_two_mul y
  · exact (lt_half c y).mpr below

theorem crossing_beside {a b c d : Nat} (first : 2 * y < c) (second : 2 * y < d) :
    crossing (sample X y) (located ((a, c), (b, d))) = 0 :=
  crossing_of_below ((lt_half c y).mpr first) ((lt_half d y).mpr second)

/-- The segments of a cell lie between the rows of its samples. -/
theorem height_of_mem {s : HalfPoint × HalfPoint} (h : s ∈ cellSegments g x y) :
    2 * y ≤ s.1.2 ∧ s.1.2 ≤ 2 * y + 2 ∧ 2 * y ≤ s.2.2 ∧ s.2.2 ≤ 2 * y + 2 := by
  rcases mem_starts.mp (List.mem_map_of_mem h) with ⟨start, -⟩ | ⟨start, -⟩ | ⟨start, -⟩ | ⟨start, -⟩ <;>
    rcases mem_ends.mp (List.mem_map_of_mem h) with ⟨stop, -⟩ | ⟨stop, -⟩ | ⟨stop, -⟩ | ⟨stop, -⟩ <;>
      rw [start, stop] <;> dsimp only <;> omega

/-- The ray from a sample is crossed in the cells below it and to the left, upwards where the sample on the right of
such a cell is filled and downwards where the one on its left is. -/
theorem winding_cell : winding (sample X Y) ((cellSegments g x y).map located) =
    if y = Y ∧ x < X then ((g.filled (x + 1) y).toNat : Int) - (g.filled x y).toNat else 0 := by
  rcases lt_trichotomy y Y with above | rfl | below
  · -- the cell may reach down to the ray, but ends on it do not count as lying below
    rw [if_neg fun h => absurd h.1 above.ne]
    refine winding_eq_zero fun t ht => ?_
    obtain ⟨s, hs, rfl⟩ := List.mem_map.mp ht
    obtain ⟨-, first, -, second⟩ := height_of_mem hs
    apply crossing_of_above
    · exact not_lt.mp (mt (lt_half _ Y).mp (by omega))
    · exact not_lt.mp (mt (lt_half _ Y).mp (by omega))
  · -- the ray runs along the upper side of the cell, where a segment may start or end
    have left : 2 * x + 1 < 2 * X ↔ x < X := by omega
    unfold cellSegments cellCase
    cases g.filled x y <;> cases g.filled (x + 1) y <;> cases g.filled (x + 1) (y + 1) <;>
      cases g.filled x (y + 1) <;>
      simp [caseSegments, winding, crossing_down, crossing_up, crossing_beside, left]
  · rw [if_neg fun h => absurd h.1 below.ne']
    refine winding_eq_zero fun t ht => ?_
    obtain ⟨s, hs, rfl⟩ := List.mem_map.mp ht
    obtain ⟨first, -, second, -⟩ := height_of_mem hs
    apply crossing_of_below
    · exact (lt_half _ Y).mpr (by omega)
    · exact (lt_half _ Y).mpr (by omega)

/-! ## The whole grid -/

/-- Differences along a row, as far as a column, telescope. -/
theorem sum_differences (f : Nat → Int) (column count : Nat) :
    ((List.range count).map fun x => if x < column then f (x + 1) - f x else 0).sum = f (min column count) - f 0 := by
  induction count with
  | zero => simp
  | succ count ih =>
    rw [List.range_succ, List.map_append, List.sum_append, ih, List.map_singleton, List.sum_singleton]
    by_cases before : count < column
    · rw [if_pos before, min_eq_right before.le, min_eq_right before]
      omega
    · rw [if_neg before, min_eq_left (by omega), min_eq_left (by omega), add_zero]

/-- Of a sum over rows only one counts. -/
theorem sum_ite_eq (v : Int) (row count : Nat) :
    ((List.range count).map fun y => if y = row then v else 0).sum = if row < count then v else 0 := by
  induction count with
  | zero => rfl
  | succ count ih =>
    rw [List.range_succ, List.map_append, List.sum_append, ih, List.map_singleton, List.sum_singleton]
    split_ifs <;> omega

/-- The segments of a grid with an empty border go around the filled samples once, and around no other sample. -/
theorem winding_segments (empty : g.HasEmptyBorder) (hX : X < g.width) (hY : Y < g.height) :
    winding (sample X Y) ((segments g).map located) = (g.filled X Y).toNat := by
  -- only the cells right below the sample's row are crossed, and there the differences telescope
  have row : ∀ y, winding (sample X Y)
      (((List.range (g.width - 1)).flatMap fun x => cellSegments g x y).map located) =
        if y = Y then ((g.filled X Y).toNat : Int) else 0 := by
    intro y
    rw [List.map_flatMap, winding_flatMap]
    simp only [winding_cell]
    by_cases here : y = Y
    · subst here
      have edge : g.filled 0 y = false := empty 0 y ⟨by omega, hY, .inl rfl⟩
      simp only [true_and]
      rw [sum_differences fun x => ((g.filled x y).toNat : Int), min_eq_left (by omega), edge, if_pos trivial]
      exact sub_zero _
    · simp [here]
  unfold segments
  rw [List.map_flatMap, winding_flatMap]
  simp only [row, sum_ite_eq]
  split
  · rfl
  · next outside =>
    -- below the last row of samples there are no cells
    rw [empty X Y ⟨hX, hY, by omega⟩]
    rfl

theorem tellsApart_position (g : Grid) : g.TellsApart position := by
  have half : ∀ m n : Nat, (m : Rat) / 2 = n / 2 → m = n := fun m n same =>
    Nat.cast_injective ((div_left_inj' two_ne_zero).mp same)
  intro p q _ _ same
  obtain ⟨sameX, sameY⟩ := Prod.mk.inj same
  exact Prod.ext (half _ _ sameX) (half _ _ sameY)

theorem winding_marchWith (empty : g.HasEmptyBorder) (hX : X < g.width) (hY : Y < g.height) :
    winding (sample X Y) (marchWith position g).toList = (g.filled X Y).toNat := by
  rw [(tellsApart_position g).toList_marchWith]
  exact winding_segments empty hX hY

/-- The subpaths drawn along the segments are closed, and go around the same samples. -/
theorem winding_subpaths (empty : g.HasEmptyBorder) (hX : X < g.width) (hY : Y < g.height) {maxSteps : Nat}
    (enough : (segments g).length ≤ maxSteps) :
    (∀ s ∈ stitch (marchWith position g) maxSteps, s.closed = true) ∧
      winding (sample X Y) ((stitch (marchWith position g) maxSteps).flatMap Subpath.edges) =
        (g.filled X Y).toNat := by
  have neat : (marchWith position g).Neat := SegmentMap.neat_ofList _
  have apart := tellsApart_position g
  have bound : (marchWith position g).starts.length ≤ maxSteps := apart.length_starts.trans_le enough
  refine ⟨closed_of_looped neat bound (apart.looped empty.even), ?_⟩
  rw [winding_perm (edges_perm neat bound)]
  exact winding_marchWith empty hX hY

/-- The outline fills the filled samples. It goes around each of them once and around no other sample, if the
border is empty. So a sample lies inside of the outline by the nonzero rule if it is filled, and by the even-odd
rule as well. -/
theorem outline_fills_samples (empty : g.HasEmptyBorder) (hx : x < g.width) (hy : y < g.height) :
    winding (sample x y) (marchWith position g).toList = (g.filled x y).toNat ∧
    (winding (sample x y) (marchWith position g).toList ≠ 0 ↔ g.filled x y = true) ∧
    (crossings (sample x y) (marchWith position g).toList % 2 = 1 ↔ g.filled x y = true) := by
  have winds := winding_marchWith empty hx hy
  have parity := crossings_mod_two (sample x y) (marchWith position g).toList
  rw [winds] at parity ⊢
  refine ⟨rfl, ?_, ?_⟩
  · cases g.filled x y <;> decide
  · cases full : g.filled x y
    · rw [full, Bool.toNat_false] at parity
      constructor
      · omega
      · nofun
    · rw [full, Bool.toNat_true] at parity
      constructor
      · exact fun _ => rfl
      · omega

/-- Of four samples that meet at a corner the two that are filled are inside, and the two others outside. -/
theorem outline_fills_samples_diagonal :
    winding (sample 1 1) (marchWith position diagonal).toList = 1 ∧
    winding (sample 2 2) (marchWith position diagonal).toList = 1 ∧
    winding (sample 2 1) (marchWith position diagonal).toList = 0 ∧
    ¬crossings (sample 1 2) (marchWith position diagonal).toList % 2 = 1 := by
  have empty : diagonal.HasEmptyBorder := hasEmptyBorder_diagonal
  have first := outline_fills_samples empty (x := 1) (y := 1) (by decide) (by decide)
  have second := outline_fills_samples empty (x := 2) (y := 2) (by decide) (by decide)
  have third := outline_fills_samples empty (x := 2) (y := 1) (by decide) (by decide)
  have fourth := outline_fills_samples empty (x := 1) (y := 2) (by decide) (by decide)
  exact ⟨first.1, second.1, third.1, fun odd => absurd (fourth.2.2.mp odd) (by decide)⟩

end VectorGraph.Contour
