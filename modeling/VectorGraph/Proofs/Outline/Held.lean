import VectorGraph.Outline.Primitive
import VectorGraph.Proofs.Number.Held
import VectorGraph.Proofs.Params.Refused

/-!
Outlines that can be written.

An outline has a text if and only if a double can hold each of its coordinates (`outlineText_refuses`). The basic
shapes compute in doubles from their first step on, and so have a text whatever their sizes are.
-/
namespace VectorGraph

/-! ## Texts -/

namespace Scalar

theorem combine_real {exact : Int → Int → Int} {rounded : Float → Float → Float} {a : Scalar}
    (held : a.toFloat? ≠ none) (x : Float) : ∃ z, combine exact rounded a (.real x) = .real z := by
  obtain ⟨y, hy⟩ := Option.ne_none_iff_exists'.mp held
  exact ⟨rounded y x, by cases a <;> simp_all [combine, toFloat?]⟩

theorem coordinate_refuses (a : Scalar) : Refuses a.coordinate (a.toFloat? = none) := by
  cases held : a.toFloat? with
  | none =>
    rw [coordinate, held]
    exact Refuses.always.congr (by simp)
  | some x =>
    rw [coordinate, held]
    exact (Refuses.never _).congr (by simp)

end Scalar

namespace Command

variable {α : Type}

/-- The coordinates of a command, in order. -/
def coordinates : Command α → List α
  | .move x y | .line x y => [x, y]
  | .cubic x₁ y₁ x₂ y₂ x y => [x₁, y₁, x₂, y₂, x, y]
  | .arc rx ry _ _ x y => [rx, ry, x, y]
  | .close => []

theorem text_refuses (command : Command Scalar) :
    Refuses (command.text Scalar.coordinate) (∃ a ∈ command.coordinates, a.toFloat? = none) := by
  have each := Scalar.coordinate_refuses
  cases command with
  | move x y => exact ((each x).andThen fun _ _ => (each y).map _).congr (by simp [coordinates])
  | line x y => exact ((each x).andThen fun _ _ => (each y).map _).congr (by simp [coordinates])
  | cubic x₁ y₁ x₂ y₂ x y =>
    exact ((each x₁).andThen fun _ _ => (each y₁).andThen fun _ _ => (each x₂).andThen fun _ _ =>
      (each y₂).andThen fun _ _ => (each x).andThen fun _ _ => (each y).map _).congr (by simp [coordinates])
  | arc rx ry large sweep x y =>
    exact ((each rx).andThen fun _ _ => (each ry).andThen fun _ _ => (each x).andThen fun _ _ =>
      (each y).map _).congr (by simp [coordinates])
  | close => exact (Refuses.never _).congr (by simp [coordinates])

end Command

/-- Whether all coordinates of an outline can be written. -/
def Outline.Held (outline : Outline Scalar) : Prop := ∀ command ∈ outline, ∀ a ∈ command.coordinates, a.toFloat? ≠ none

/-- An outline is refused if and only if a double cannot hold one of its coordinates. -/
theorem outlineText_refuses (outline : Outline Scalar) : Refuses (outlineText outline) (¬ outline.Held) :=
  ((Refuses.mapM fun command _ => command.text_refuses).map _).congr (by simp [Outline.Held])

theorem outlineText_eq_ok {outline : Outline Scalar} (held : outline.Held) : ∃ s, outlineText outline = .ok s :=
  (outlineText_refuses outline).sure (not_not_intro held)

/-! ## Basic shapes -/

namespace Outline

theorem held_polyline {vertices : List (Scalar × Scalar)} (closed : Bool)
    (held : ∀ v ∈ vertices, v.1.toFloat? ≠ none ∧ v.2.toFloat? ≠ none) : Held (polyline vertices closed) := by
  cases vertices with
  | nil =>
    intro command there
    cases there
  | cons first rest =>
    intro command there
    simp only [polyline, List.cons_append, List.mem_cons, List.mem_append, List.mem_map] at there
    rcases there with rfl | ⟨v, hv, rfl⟩ | closing
    · simpa [Command.coordinates] using held first List.mem_cons_self
    · simpa [Command.coordinates] using held v (List.mem_cons_of_mem first hv)
    · cases closed <;> simp_all [Command.coordinates]

theorem zero_held : (0 : Scalar).toFloat? ≠ none := by
  have zero : (0 : Scalar) = .whole 0 := rfl
  rw [zero, Scalar.toFloat?]
  exact doubleOfInt_ne_none (by decide)

theorem real_held (x : Float) : (real x).toFloat? ≠ none := Option.some_ne_none x

theorem held_rectangle (w h a b c d : Float) :
    Held (rectangle (real w) (real h) ⟨real a, real b, real c, real d⟩) := by
  have minus : ∀ x y : Float, (real x - real y).toFloat? ≠ none := fun x y => real_held (x - y)
  simp only [Held, rectangle, Command.coordinates, List.forall_mem_cons, List.not_mem_nil, false_imp_iff,
    implies_true, and_true, real_held, zero_held, minus, ne_eq, not_false_eq_true]

theorem add_real {a : Scalar} (held : a.toFloat? ≠ none) (x : Float) : ∃ z, a + real x = real z :=
  Scalar.combine_real held x

theorem sub_real {a : Scalar} (held : a.toFloat? ≠ none) (x : Float) : ∃ z, a - real x = real z :=
  Scalar.combine_real held x

theorem held_ellipse (rx ry : Float) : Held (ellipse 0 0 (real rx) (real ry)) := by
  obtain ⟨right, plus⟩ := add_real zero_held rx
  obtain ⟨left, minus⟩ := sub_real zero_held rx
  simp only [Held, ellipse, Command.coordinates, List.forall_mem_cons, List.not_mem_nil, false_imp_iff,
    implies_true, and_true, real_held, zero_held, minus, plus, ne_eq, not_false_eq_true]

theorem held_beam (length top bottom : Float) : Held (beam (real length) (real top) (real bottom)) := by
  have half : ∀ x, (real x).half = real (x / 2) := fun _ => rfl
  have minus : ∀ x, (real x).mapFloat (-·) = real (-x) := fun _ => rfl
  simp only [Held, beam, half, minus, Command.coordinates, List.forall_mem_cons, List.not_mem_nil, false_imp_iff,
    implies_true, and_true, real_held, ne_eq, not_false_eq_true]

/-- The vertices of a star around the origin are doubles. -/
theorem starVertex_real (total : Nat) (outer inner : Float) (i : Nat) :
    ∃ x y, starVertex 0 0 total (real outer) (real inner) i = (real x, real y) := by
  have each : ∀ r z : Float, ∃ x, (0 : Scalar) + real r * real z = real x := fun r z => add_real zero_held (r * z)
  simp only [starVertex]
  split
  · obtain ⟨x, hx⟩ := each outer _
    obtain ⟨y, hy⟩ := each outer _
    exact ⟨x, y, by rw [hx, hy]⟩
  · obtain ⟨x, hx⟩ := each inner _
    obtain ⟨y, hy⟩ := each inner _
    exact ⟨x, y, by rw [hx, hy]⟩

theorem star_held (points : Int) (outer inner : Float) :
    ∃ outline, star 0 0 points (real outer) (real inner) = .ok outline ∧ Held outline := by
  generalize count : (points * 2).toNat = total
  have checked : (fun i => checkVertex (starVertex 0 0 total (real outer) (real inner) i)) =
      fun i => pure (starVertex 0 0 total (real outer) (real inner) i) := by
    funext i
    obtain ⟨x, y, vertex⟩ := starVertex_real total outer inner i
    rw [vertex]
    rfl
  refine ⟨polyline ((List.range total).map (starVertex 0 0 total (real outer) (real inner))) true, ?_, ?_⟩
  · rw [star, count, checked, List.mapM_pure]
    rfl
  · refine held_polyline true fun v there => ?_
    obtain ⟨i, -, rfl⟩ := List.mem_map.mp there
    obtain ⟨x, y, vertex⟩ := starVertex_real total outer inner i
    rw [vertex]
    exact ⟨real_held x, real_held y⟩

end Outline

end VectorGraph
