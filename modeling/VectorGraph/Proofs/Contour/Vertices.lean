import VectorGraph.Proofs.Contour.Outline
import VectorGraph.Proofs.Number.Nearest

/-!
At which scales the vertices of an outline are kept apart.

The keys of points have two places. A grid of `fidelity` samples to a side, drawn in a picture of side `resolution`,
has half steps of `50 · resolution / fidelity` hundredths. If that is one hundredth or more, rounding keeps all points
of the grid apart; if it is less, two points next to each other are rounded to one somewhere inside of the grid, and
around the sample between them a segment is lost in the map (`vertices_apart_iff`).
-/
namespace VectorGraph.Contour

variable {resolution fidelity : Nat}

/-! ## Exact keys -/

/-- The hundredths of a coordinate, which is given in half steps. -/
def hundredths (resolution fidelity n : Nat) : Nat := roundHalfEven (n * resolution * 100) (2 * fidelity)

/-- The key of a point with scale `resolution / fidelity` in exact arithmetic. -/
def exactKey (resolution fidelity : Nat) (p : HalfPoint) : String :=
  fixedDigits 2 (hundredths resolution fidelity p.1) ++ "," ++ fixedDigits 2 (hundredths resolution fidelity p.2)

/-- Wherever a double holds the exact coordinate, the exact text is written. -/
theorem coordinateKey_eq {scale : Scalar} {n : Nat} {x : Float} {b : Binary} (held : (scaled scale n).toFloat? = some x)
    (view : FloatView.of x = .finite b) (positive : b.negative = false) (pos : 0 < fidelity)
    (value : b.magnitude = (n * resolution : Nat) / (2 * fidelity : Nat)) :
    coordinateKey scale n = fixedDigits 2 (hundredths resolution fidelity n) := by
  rw [coordinateKey, held, Option.getD_some]
  exact fixedText_eq view positive (Nat.mul_pos Nat.two_pos pos) value 2

theorem exactKey_eq_iff {p q : HalfPoint} : exactKey resolution fidelity p = exactKey resolution fidelity q ↔
    hundredths resolution fidelity p.1 = hundredths resolution fidelity q.1 ∧
      hundredths resolution fidelity p.2 = hundredths resolution fidelity q.2 := by
  constructor
  · intro same
    obtain ⟨first, second⟩ := joined_inj (comma_not_mem_fixedDigits 2 _) (comma_not_mem_fixedDigits 2 _) same
    exact ⟨fixedDigits_injective 2 first, fixedDigits_injective 2 second⟩
  · rintro ⟨first, second⟩
    rw [exactKey, first, second, exactKey]

/-! ## Steps of a hundredth and more -/

theorem hundredths_strictMono (pos : 0 < fidelity) (wide : fidelity ≤ 50 * resolution) :
    StrictMono (hundredths resolution fidelity) := by
  have below : 0 < 2 * fidelity := Nat.mul_pos Nat.two_pos pos
  refine strictMono_nat_of_lt_succ fun n => ?_
  rcases Nat.eq_or_lt_of_le wide with exact_ | wider
  · -- the steps are whole hundredths
    have whole : ∀ n, hundredths resolution fidelity n = n := by
      intro n
      have steps : n * resolution * 100 = n * (2 * fidelity) := by rw [exact_]; ring
      rw [hundredths, steps, roundHalfEven_mul n below]
    rw [whole, whole]
    exact Nat.lt_succ_self n
  · refine roundHalfEven_lt below ?_
    rw [Nat.succ_mul, Nat.add_mul]
    omega

/-! ## Steps of less than a hundredth -/

theorem hundredths_mono (resolution : Nat) (pos : 0 < fidelity) : Monotone (hundredths resolution fidelity) :=
  fun _ _ h =>
    roundHalfEven_mono (Nat.mul_pos Nat.two_pos pos) (Nat.mul_le_mul_right 100 (Nat.mul_le_mul_right resolution h))

/-- There are fewer hundredths inside of the grid than points, so two neighbours have the same ones. -/
theorem exists_merged (drawn : 0 < resolution) (narrow : 50 * resolution < fidelity) :
    ∃ n, 1 ≤ n ∧ n + 1 ≤ 2 * fidelity - 3 ∧
      hundredths resolution fidelity n = hundredths resolution fidelity (n + 1) := by
  obtain ⟨f, rfl⟩ : ∃ f, fidelity = f + 5 := ⟨fidelity - 5, by omega⟩
  have pos : 0 < f + 5 := Nat.succ_pos _
  by_contra apart
  have climbs : ∀ k ≤ 2 * f + 6, k ≤ hundredths resolution (f + 5) (k + 1) := by
    intro k
    induction k with
    | zero => exact fun _ => Nat.zero_le _
    | succ k ih =>
      intro inside
      have before := ih (Nat.le_of_succ_le inside)
      have step := hundredths_mono resolution pos (Nat.le_add_right (k + 1) 1)
      have differ : hundredths resolution (f + 5) (k + 1) ≠ hundredths resolution (f + 5) (k + 1 + 1) :=
        fun same => apart ⟨k + 1, by omega, by omega, same⟩
      omega
  have low : hundredths resolution (f + 5) (2 * f + 7) ≤ 2 * f + 5 := by
    refine roundHalfEven_le_of_lt ?_
    have small : (2 * f + 7) * (50 * resolution) ≤ (2 * f + 7) * (f + 4) := Nat.mul_le_mul_left _ (by omega)
    have double : 2 * ((2 * f + 7) * resolution * 100) = 4 * ((2 * f + 7) * (50 * resolution)) := by ring
    have gap : (2 * (2 * f + 5) + 1) * (2 * (f + 5)) + 2 = 4 * ((2 * f + 7) * (f + 4)) + 2 * f := by ring
    omega
  have high : 2 * f + 6 ≤ hundredths resolution (f + 5) (2 * f + 7) := climbs (2 * f + 6) le_rfl
  omega

/-! ## One sample -/

/-- A square grid with one filled sample, which lies on the diagonal. -/
def dot (fidelity c : Nat) : Grid where
  width := fidelity
  height := fidelity
  filled x y := x == c && y == c

/-- Two of the four sides of the sample lie next to each other on a line across the diagonal, and segments start at
both of them. -/
theorem exists_starts_dot {n : Nat} (inside : 1 ≤ n) (below : n + 1 ≤ 2 * fidelity - 3) :
    (n, n + 1) ∈ (segments (dot fidelity ((n + 1) / 2))).map Prod.fst ∧
      (n + 1, n) ∈ (segments (dot fidelity ((n + 1) / 2))).map Prod.fst := by
  have found : ∀ {g : Grid} {p : HalfPoint} (x y : Nat), x + 1 < g.width → y + 1 < g.height →
      p ∈ (cellSegments g x y).map Prod.fst → p ∈ (segments g).map Prod.fst := by
    intro g p x y hx hy start
    obtain ⟨s, hs, rfl⟩ := List.mem_map.mp start
    exact List.mem_map_of_mem (mem_segments.mpr ⟨x, y, hx, hy, hs⟩)
  rcases Nat.even_or_odd' n with ⟨c, rfl | rfl⟩
  · rw [show (2 * c + 1) / 2 = c by omega]
    obtain ⟨b, rfl⟩ : ∃ b, c = b + 1 := ⟨c - 1, by omega⟩
    constructor
    · refine found b (b + 1) ?_ ?_ (mem_starts.mpr ?_) <;> simp [dot] <;> omega
    · refine found (b + 1) (b + 1) ?_ ?_ (mem_starts.mpr ?_) <;> simp [dot] <;> omega
  · rw [show (2 * c + 1 + 1) / 2 = c + 1 by omega]
    constructor
    · refine found c c ?_ ?_ (mem_starts.mpr ?_) <;> simp [dot] <;> omega
    · refine found (c + 1) c ?_ ?_ (mem_starts.mpr ?_) <;> simp [dot] <;> omega

/-- Where segments start at two points with one key, the map has not all segments. -/
theorem toList_marchWith_ne {κ : Type} [BEq κ] [Hashable κ] [LawfulBEq κ] {key : HalfPoint → κ} {g : Grid}
    {p q : HalfPoint} (hp : p ∈ (segments g).map Prod.fst) (hq : q ∈ (segments g).map Prod.fst)
    (same : key p = key q) (differ : p ≠ q) : (marchWith key g).toList ≠ keyed key g := by
  intro all
  have neat : (marchWith key g).Neat := SegmentMap.neat_ofList _
  have distinct : ((keyed key g).map Prod.fst).Nodup := by
    rw [← all, neat.map_fst_toList]
    exact List.nodup_reverse.mpr neat.distinct
  have starts : (keyed key g).map Prod.fst = ((segments g).map Prod.fst).map key := by
    rw [keyed, List.map_map, List.map_map]
    rfl
  rw [starts] at distinct
  exact differ (List.inj_on_of_nodup_map distinct hp hq same)

/-! ## All resolutions and fidelities -/

/-- The points of a square grid have different keys, and the map of each such grid has all of its segments, if and only
if a half step of the grid is a hundredth or more. -/
theorem vertices_apart_iff (drawn : 1 ≤ resolution) (grid : 2 ≤ fidelity) :
    ((∀ p q : HalfPoint, p.1 ≤ 2 * (fidelity - 1) → p.2 ≤ 2 * (fidelity - 1) → q.1 ≤ 2 * (fidelity - 1) →
        q.2 ≤ 2 * (fidelity - 1) → exactKey resolution fidelity p = exactKey resolution fidelity q → p = q) ↔
      fidelity ≤ 50 * resolution) ∧
    ((∀ g : Grid, g.width = fidelity → g.height = fidelity →
        (marchWith (exactKey resolution fidelity) g).toList = keyed (exactKey resolution fidelity) g) ↔
      fidelity ≤ 50 * resolution) := by
  have apart (wide : fidelity ≤ 50 * resolution) : Function.Injective (exactKey resolution fidelity) := by
    intro p q same
    have injective := (hundredths_strictMono (by omega) wide).injective
    obtain ⟨first, second⟩ := exactKey_eq_iff.mp same
    exact Prod.ext (injective first) (injective second)
  have merged (narrow : 50 * resolution < fidelity) : ∃ n, 1 ≤ n ∧ n + 1 ≤ 2 * fidelity - 3 ∧
      exactKey resolution fidelity (n, n + 1) = exactKey resolution fidelity (n + 1, n) := by
    obtain ⟨n, inside, below, same⟩ := exists_merged drawn narrow
    exact ⟨n, inside, below, exactKey_eq_iff.mpr ⟨same, same.symm⟩⟩
  constructor
  · refine ⟨fun different => ?_, fun wide p q _ _ _ _ same => apart wide same⟩
    by_contra narrow
    obtain ⟨n, -, below, same⟩ := merged (Nat.not_le.mp narrow)
    have equal := different _ _ (by dsimp only; omega) (by dsimp only; omega) (by dsimp only; omega)
      (by dsimp only; omega) same
    exact absurd (Prod.mk.inj equal).1 (Nat.ne_of_lt (Nat.lt_succ_self n))
  · refine ⟨fun kept => ?_, fun wide g _ _ => Grid.TellsApart.toList_marchWith fun p q _ _ same => apart wide same⟩
    by_contra narrow
    obtain ⟨n, inside, below, same⟩ := merged (Nat.not_le.mp narrow)
    -- A single dot there has two segments that start at the merged points, and the map keeps one of them.
    obtain ⟨first, second⟩ := exists_starts_dot inside below
    have differ : ((n, n + 1) : HalfPoint) ≠ (n + 1, n) :=
      fun equal => absurd (Prod.mk.inj equal).1 (Nat.ne_of_lt (Nat.lt_succ_self n))
    exact toList_marchWith_ne first second same differ (kept _ rfl rfl)

/-- In a picture of side one, fifty samples to a side are the most that are told apart: with the fifty-first, two points
of the grid have one key. -/
theorem vertices_apart_iff_one :
    (∀ p q : HalfPoint, p.1 ≤ 98 → p.2 ≤ 98 → q.1 ≤ 98 → q.2 ≤ 98 → exactKey 1 50 p = exactKey 1 50 q → p = q) ∧
    ∃ g : Grid, g.width = 51 ∧ g.height = 51 ∧ (marchWith (exactKey 1 51) g).toList ≠ keyed (exactKey 1 51) g := by
  constructor
  · exact (@vertices_apart_iff 1 50 le_rfl (by decide)).1.mpr (by decide)
  · have lost := (@vertices_apart_iff 1 51 le_rfl (by decide)).2.not.mpr (by decide)
    push Not at lost
    exact lost

/-- In a picture of side one with 64 samples to a side, two neighbours are merged, in exact arithmetic and with doubles,
and the map of one filled sample has three of its four segments. -/
theorem vertices_merge :
    ¬ (∀ resolution fidelity, 1 ≤ resolution → 2 ≤ fidelity → fidelity ≤ 1024 →
      (∀ p q : HalfPoint, p.1 ≤ 2 * (fidelity - 1) → p.2 ≤ 2 * (fidelity - 1) → q.1 ≤ 2 * (fidelity - 1) →
        q.2 ≤ 2 * (fidelity - 1) → exactKey resolution fidelity p = exactKey resolution fidelity q → p = q) ∧
      ∀ g : Grid, g.width = fidelity → g.height = fidelity →
        (marchWith (exactKey resolution fidelity) g).toList = keyed (exactKey resolution fidelity) g) ∧
    exactKey 1 64 (2, 3) = exactKey 1 64 (3, 2) ∧
    pointKey (.real (1 / 64)) (2, 3) = pointKey (.real (1 / 64)) (3, 2) ∧
    (marchWith (exactKey 1 64) (dot 64 1)).toList ≠ keyed (exactKey 1 64) (dot 64 1) := by
  have same : exactKey 1 64 (2, 3) = exactKey 1 64 (3, 2) := exactKey_eq_iff.mpr (by decide)
  have starts := @exists_starts_dot 64 2 (by decide) (by decide)
  refine ⟨fun all => ?_, same, by decide +kernel, toList_marchWith_ne starts.1 starts.2 same (by decide)⟩
  exact absurd ((all 1 64 (by decide) (by decide) (by decide)).1 (2, 3) (3, 2) (by decide) (by decide) (by decide)
    (by decide) same) (by decide)

end VectorGraph.Contour
