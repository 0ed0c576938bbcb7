import Mathlib.Algebra.Group.Action.Defs
import Mathlib.Algebra.Order.BigOperators.Group.List
import Mathlib.Algebra.Order.Ring.Nat
import Mathlib.Data.List.Nodup
import Mathlib.Data.List.Range
import VectorGraph.Contour.March

/-!
Where the segments of a grid start and end.

A point of a segment lies between two neighbouring samples, one of which is filled. Seen from a cell, a segment
starts on a side where the sample that comes first clockwise is filled, and ends on a side where the other one
is (`mem_starts`, `mem_ends`). The two cells at a side go along it in opposite directions, and so a segment
starts at the side in one of them and ends there in the other. Hence no two segments start at one point or
end at one (`nodup_starts`, `nodup_ends`), and unless the side lies on the border a segment starts wherever one
ends (`exists_start`).
-/
namespace VectorGraph.Contour

variable {g : Grid} {x y : Nat} {p : HalfPoint} {s : HalfPoint × HalfPoint}

/-! ## One cell -/

/-- The sides of a cell from which a segment leads away. -/
theorem mem_starts : p ∈ (cellSegments g x y).map Prod.fst ↔
    (p = (2 * x + 1, 2 * y) ∧ g.filled x y = true ∧ g.filled (x + 1) y = false) ∨
    (p = (2 * x + 2, 2 * y + 1) ∧ g.filled (x + 1) y = true ∧ g.filled (x + 1) (y + 1) = false) ∨
    (p = (2 * x + 1, 2 * y + 2) ∧ g.filled (x + 1) (y + 1) = true ∧ g.filled x (y + 1) = false) ∨
    (p = (2 * x, 2 * y + 1) ∧ g.filled x (y + 1) = true ∧ g.filled x y = false) := by
  unfold cellSegments cellCase
  cases g.filled x y <;> cases g.filled (x + 1) y <;> cases g.filled (x + 1) (y + 1) <;>
    cases g.filled x (y + 1) <;> simp [caseSegments, or_comm]

/-- The sides of a cell to which a segment leads. -/
theorem mem_ends : p ∈ (cellSegments g x y).map Prod.snd ↔
    (p = (2 * x + 1, 2 * y) ∧ g.filled x y = false ∧ g.filled (x + 1) y = true) ∨
    (p = (2 * x + 2, 2 * y + 1) ∧ g.filled (x + 1) y = false ∧ g.filled (x + 1) (y + 1) = true) ∨
    (p = (2 * x + 1, 2 * y + 2) ∧ g.filled (x + 1) (y + 1) = false ∧ g.filled x (y + 1) = true) ∨
    (p = (2 * x, 2 * y + 1) ∧ g.filled x (y + 1) = false ∧ g.filled x y = true) := by
  unfold cellSegments cellCase
  cases g.filled x y <;> cases g.filled (x + 1) y <;> cases g.filled (x + 1) (y + 1) <;>
    cases g.filled x (y + 1) <;> simp [caseSegments, or_comm]

/-- In a cell, no two segments start at one point, and no two end at one. -/
theorem nodup_cell : ((cellSegments g x y).map Prod.fst).Nodup ∧ ((cellSegments g x y).map Prod.snd).Nodup := by
  unfold cellSegments cellCase
  cases g.filled x y <;> cases g.filled (x + 1) y <;> cases g.filled (x + 1) (y + 1) <;>
    cases g.filled x (y + 1) <;> simp [caseSegments]

theorem length_cellSegments (g : Grid) (x y : Nat) : (cellSegments g x y).length ≤ 2 := by
  unfold cellSegments cellCase
  cases g.filled x y <;> cases g.filled (x + 1) y <;> cases g.filled (x + 1) (y + 1) <;>
    cases g.filled x (y + 1) <;> simp [caseSegments]

/-! ## All cells -/

theorem mem_segments : s ∈ segments g ↔
    ∃ x y, x + 1 < g.width ∧ y + 1 < g.height ∧ s ∈ cellSegments g x y := by
  simp only [segments, List.mem_flatMap, List.mem_range]
  constructor
  · rintro ⟨y, hy, x, hx, mem⟩
    exact ⟨x, y, by omega, by omega, mem⟩
  · rintro ⟨x, y, hx, hy, mem⟩
    exact ⟨y, by omega, x, by omega, mem⟩

/-- There are at most two segments for each cell. -/
theorem length_segments (g : Grid) : (segments g).length ≤ (g.height - 1) * ((g.width - 1) * 2) := by
  have short : ∀ {α β : Type} (l : List α) (f : α → List β) (n : Nat), (∀ a ∈ l, (f a).length ≤ n) →
      (l.flatMap f).length ≤ l.length * n := by
    intro α β l f n each
    have sum := List.sum_le_card_nsmul (l.map fun a => (f a).length) n (by simpa using each)
    rwa [List.length_map, smul_eq_mul, ← List.length_flatMap] at sum
  have rows := short (List.range (g.height - 1))
    (fun y => (List.range (g.width - 1)).flatMap fun x => cellSegments g x y) ((g.width - 1) * 2) fun y _ => by
      have row := short (List.range (g.width - 1)) (cellSegments g · y) 2 fun x _ => length_cellSegments g x y
      rwa [List.length_range] at row
  rwa [List.length_range] at rows

/-- What is said of the segments of cells is different for different cells, if the cell can be told by it. -/
theorem nodup_map_segments {β : Type} {f : HalfPoint × HalfPoint → β} {cell : β → Nat × Nat}
    (inside : ∀ x y, ((cellSegments g x y).map f).Nodup)
    (told : ∀ x y, ∀ b ∈ (cellSegments g x y).map f, cell b = (x, y)) : ((segments g).map f).Nodup := by
  have row : ∀ y, ∀ b ∈ ((List.range (g.width - 1)).flatMap fun x => cellSegments g x y).map f,
      (cell b).2 = y := by
    intro y b hb
    rw [List.map_flatMap] at hb
    obtain ⟨x, -, hb⟩ := List.mem_flatMap.mp hb
    rw [told x y b hb]
  unfold segments
  rw [List.map_flatMap, List.nodup_flatMap]
  refine ⟨fun y _ => ?_, List.nodup_range.imp fun {y y'} other => ?_⟩
  · rw [List.map_flatMap, List.nodup_flatMap]
    refine ⟨fun x _ => inside x y, List.nodup_range.imp fun {x x'} other => ?_⟩
    intro b hb hb'
    exact other (congrArg Prod.fst ((told x y b hb).symm.trans (told x' y b hb')))
  · intro b hb hb'
    exact other ((row y b hb).symm.trans (row y' b hb'))

/-- The cell in which a segment starts at a point between two samples. -/
def startCell (g : Grid) (p : HalfPoint) : Nat × Nat :=
  if p.1 % 2 = 1 then (p.1 / 2, if g.filled (p.1 / 2) (p.2 / 2) then p.2 / 2 else p.2 / 2 - 1)
  else (if g.filled (p.1 / 2) (p.2 / 2) then p.1 / 2 - 1 else p.1 / 2, p.2 / 2)

/-- The cell in which a segment ends at a point between two samples. -/
def endCell (g : Grid) (p : HalfPoint) : Nat × Nat :=
  if p.1 % 2 = 1 then (p.1 / 2, if g.filled (p.1 / 2) (p.2 / 2) then p.2 / 2 - 1 else p.2 / 2)
  else (if g.filled (p.1 / 2) (p.2 / 2) then p.1 / 2 else p.1 / 2 - 1, p.2 / 2)

theorem startCell_eq (h : p ∈ (cellSegments g x y).map Prod.fst) : startCell g p = (x, y) := by
  have half : (2 * x + 1) / 2 = x ∧ (2 * y + 1) / 2 = y ∧ (2 * x + 2) / 2 = x + 1 ∧ (2 * y + 2) / 2 = y + 1 ∧
      2 * x / 2 = x ∧ 2 * y / 2 = y := by omega
  have odd : (2 * x + 1) % 2 = 1 ∧ (2 * x + 2) % 2 = 0 ∧ 2 * x % 2 = 0 := by omega
  rcases mem_starts.mp h with ⟨rfl, first, second⟩ | ⟨rfl, first, second⟩ | ⟨rfl, first, second⟩ |
    ⟨rfl, first, second⟩ <;> simp [startCell, half, odd, first, second]

theorem endCell_eq (h : p ∈ (cellSegments g x y).map Prod.snd) : endCell g p = (x, y) := by
  have half : (2 * x + 1) / 2 = x ∧ (2 * y + 1) / 2 = y ∧ (2 * x + 2) / 2 = x + 1 ∧ (2 * y + 2) / 2 = y + 1 ∧
      2 * x / 2 = x ∧ 2 * y / 2 = y := by omega
  have odd : (2 * x + 1) % 2 = 1 ∧ (2 * x + 2) % 2 = 0 ∧ 2 * x % 2 = 0 := by omega
  rcases mem_ends.mp h with ⟨rfl, first, second⟩ | ⟨rfl, first, second⟩ | ⟨rfl, first, second⟩ |
    ⟨rfl, first, second⟩ <;> simp [endCell, half, odd, first, second]

/-- No two segments start at one point. -/
theorem nodup_starts (g : Grid) : ((segments g).map Prod.fst).Nodup :=
  nodup_map_segments (fun _ _ => nodup_cell.1) fun _ _ _ => startCell_eq

/-- No two segments end at one point. -/
theorem nodup_ends (g : Grid) : ((segments g).map Prod.snd).Nodup :=
  nodup_map_segments (fun _ _ => nodup_cell.2) fun _ _ _ => endCell_eq

/-! ## The extent of a grid -/

namespace Grid

/-- The points of a grid, in half steps. -/
def HasPoint (g : Grid) (p : HalfPoint) : Prop := p.1 ≤ 2 * (g.width - 1) ∧ p.2 ≤ 2 * (g.height - 1)

/-- The outer samples of a grid. -/
def OnBorder (g : Grid) (x y : Nat) : Prop :=
  x < g.width ∧ y < g.height ∧ (x = 0 ∨ y = 0 ∨ x + 1 = g.width ∨ y + 1 = g.height)

/-- Whether the outer samples are all filled or all empty. -/
def HasEvenBorder (g : Grid) : Prop :=
  ∀ x y x' y', g.OnBorder x y → g.OnBorder x' y' → g.filled x y = g.filled x' y'

/-- Whether no outer sample is filled. -/
def HasEmptyBorder (g : Grid) : Prop := ∀ x y, g.OnBorder x y → g.filled x y = false

theorem HasEmptyBorder.even {g : Grid} (h : g.HasEmptyBorder) : g.HasEvenBorder :=
  fun x y x' y' on on' => (h x y on).trans (h x' y' on').symm

end Grid

/-- The points of a segment lie in the grid. -/
theorem hasPoint_of_mem (h : s ∈ segments g) : g.HasPoint s.1 ∧ g.HasPoint s.2 := by
  obtain ⟨x, y, hx, hy, mem⟩ := mem_segments.mp h
  have box : ∀ a b, a ≤ 2 * x + 2 → b ≤ 2 * y + 2 → g.HasPoint (a, b) :=
    fun a b ha hb => ⟨by dsimp only; omega, by dsimp only; omega⟩
  constructor
  · rcases mem_starts.mp (List.mem_map_of_mem mem) with ⟨eq, -⟩ | ⟨eq, -⟩ | ⟨eq, -⟩ | ⟨eq, -⟩ <;>
      rw [eq] <;> apply box <;> omega
  · rcases mem_ends.mp (List.mem_map_of_mem mem) with ⟨eq, -⟩ | ⟨eq, -⟩ | ⟨eq, -⟩ | ⟨eq, -⟩ <;>
      rw [eq] <;> apply box <;> omega

/-- Two samples on the border are not separated, so the side where a segment ends has a cell behind it, in which
a segment starts there. -/
theorem exists_start (even : g.HasEvenBorder) (h : s ∈ segments g) : ∃ r ∈ segments g, r.1 = s.2 := by
  obtain ⟨x, y, hx, hy, mem⟩ := mem_segments.mp h
  have found : ∀ x' y', x' + 1 < g.width → y' + 1 < g.height → s.2 ∈ (cellSegments g x' y').map Prod.fst →
      ∃ r ∈ segments g, r.1 = s.2 := by
    intro x' y' hx' hy' start
    obtain ⟨r, hr, eq⟩ := List.mem_map.mp start
    exact ⟨r, mem_segments.mpr ⟨x', y', hx', hy', hr⟩, eq⟩
  have apart : ∀ {a b a' b'}, g.OnBorder a b → g.OnBorder a' b' → g.filled a b = false →
      g.filled a' b' = true → False := by
    intro a b a' b' on on' empty full
    have same := even a b a' b' on on'
    rw [empty, full] at same
    cases same
  -- The four sides of the cell. Each has a cell behind it unless it lies on the border, and then the two samples
  -- at its ends do as well.
  rcases mem_ends.mp (List.mem_map_of_mem mem) with ⟨eq, first, second⟩ | ⟨eq, first, second⟩ |
    ⟨eq, first, second⟩ | ⟨eq, first, second⟩
  · cases y with
    | zero => exact (apart ⟨by omega, by omega, by omega⟩ ⟨by omega, by omega, by omega⟩ first second).elim
    | succ y =>
      exact found x y hx (by omega) (mem_starts.mpr (.inr (.inr (.inl ⟨eq, second, first⟩))))
  · by_cases last : x + 2 = g.width
    · exact (apart ⟨by omega, by omega, by omega⟩ ⟨by omega, by omega, by omega⟩ first second).elim
    · exact found (x + 1) y (by omega) hy (mem_starts.mpr (.inr (.inr (.inr ⟨eq, second, first⟩))))
  · by_cases last : y + 2 = g.height
    · exact (apart ⟨by omega, by omega, by omega⟩ ⟨by omega, by omega, by omega⟩ first second).elim
    · exact found x (y + 1) hx (by omega) (mem_starts.mpr (.inl ⟨eq, second, first⟩))
  · cases x with
    | zero => exact (apart ⟨by omega, by omega, by omega⟩ ⟨by omega, by omega, by omega⟩ first second).elim
    | succ x =>
      exact found x y (by omega) hy (mem_starts.mpr (.inr (.inl ⟨eq, second, first⟩)))

end VectorGraph.Contour
