import Mathlib.Algebra.BigOperators.Intervals
import Mathlib.Algebra.Group.Action.Defs
import Mathlib.Algebra.Order.BigOperators.Group.Finset
import Mathlib.Tactic.Ring
import VectorGraph.Picture.GaussianBlur

/-!
Box blurs keep colours below the opacity.

What a box gives at a place is a sum over the samples around it with weights that do not depend on the samples
(`getElem!_boxLine`). So a line that is nowhere above another one stays so (`Under.boxLine`), and where the weights
are together at most one no sample leaves the range of a byte. A colour that is premultiplied is nowhere above the
opacity, and all channels are blurred alike (`isPremultiplied_smoothed`).
-/
namespace VectorGraph

namespace Blur

/-- All weights of the box together are at most one. -/
def Box.Fits (b : Box) : Prop := (2 * b.reach + 1) * b.weight + 2 * b.edge ≤ fullWeight

instance (b : Box) : Decidable b.Fits := inferInstanceAs (Decidable (_ ≤ _))

/-! ## Lines -/

theorem getElem!_ofFn {α : Type} [Inhabited α] {n : Nat} (f : Fin n → α) (i : Nat) :
    (Array.ofFn f)[i]! = if h : i < n then f ⟨i, h⟩ else default := by
  rw [Array.getElem!_eq_getD, Array.getD_eq_getD_getElem?, Array.getElem?_ofFn]
  split <;> rfl

theorem runningSums_spec (s : Array Nat) :
    (runningSums s).size = s.size + 1 ∧ ∀ k ≤ s.size, (runningSums s)[k]! = ∑ i ∈ Finset.range k, s[i]! := by
  refine Array.foldl_induction
    (fun n (sums : Array Nat) => sums.size = n + 1 ∧ ∀ k ≤ n, sums[k]! = ∑ i ∈ Finset.range k, s[i]!) ?_ ?_
  · refine ⟨rfl, fun k hk => ?_⟩
    rw [Nat.le_zero.mp hk]
    rfl
  · intro i sums ⟨size, values⟩
    refine ⟨by rw [Array.size_push, size], fun k hk => ?_⟩
    rcases Nat.lt_or_ge i k with beyond | within
    · obtain rfl : k = i + 1 := by omega
      have last : sums.back! = ∑ j ∈ Finset.range i, s[j]! := by
        rw [← values i le_rfl, Array.back!, size, Nat.add_sub_cancel]
      rw [Finset.sum_range_succ, getElem!_pos _ _ (by rw [Array.size_push, size]; omega), getElem!_pos s i.val i.isLt,
        Array.getElem_push, dif_neg (by omega), last]
      rfl
    · rw [← values k within, getElem!_pos _ _ (by rw [Array.size_push, size]; omega), getElem!_pos sums k (by omega),
        Array.getElem_push, dif_pos (by omega)]

/-- The sum of the samples from `lo` up to, but without, `hi`. -/
theorem runningSums_sub (s : Array Nat) {lo hi : Nat} (order : lo ≤ hi) (inside : hi ≤ s.size) :
    (runningSums s)[hi]! - (runningSums s)[lo]! = ∑ i ∈ Finset.Ico lo hi, s[i]! := by
  have values := (runningSums_spec s).2
  have parts := Finset.sum_Ico_consecutive (fun i => s[i]!) (Nat.zero_le lo) order
  rw [values hi inside, values lo (order.trans inside), Finset.range_eq_Ico, Finset.range_eq_Ico]
  omega

@[simp] theorem size_boxLine (b : Box) (s : Array Nat) : (boxLine b s).size = s.size := Array.size_ofFn

/-- The sum over a box around a place: the samples inside, and those at the ends as often as the box goes beyond. -/
def boxSum (b : Box) (s : Array Nat) (x : Nat) : Nat :=
  ∑ i ∈ Finset.Ico (x - b.reach) (min s.size (x + b.reach + 1)), s[i]! +
    (s[0]! * (b.reach - x) + s[s.size - 1]! * (x + b.reach - (s.size - 1)))

/-- The samples next to the box. -/
def edgeSum (b : Box) (s : Array Nat) (x : Nat) : Nat :=
  s[x - (b.reach + 1)]! + s[min (s.size - 1) (x + b.reach + 1)]!

theorem getElem!_boxLine (b : Box) (s : Array Nat) {x : Nat} (inside : x < s.size) :
    (boxLine b s)[x]! = (b.weight * boxSum b s x + b.edge * edgeSum b s x + fullWeight / 2) / fullWeight := by
  rw [boxLine, getElem!_ofFn, dif_pos inside]
  dsimp only
  rw [runningSums_sub s (by omega) (by omega)]
  rfl

/-- Lines of one length, the first nowhere above the second, and that one in the range of bytes. -/
structure Under (low high : Array Nat) : Prop where
  size : low.size = high.size
  le : ∀ i : Nat, low[i]! ≤ high[i]!
  byte : ∀ i : Nat, high[i]! ≤ 255

variable {b : Box} {low high : Array Nat}

theorem Under.boxSum_le (h : Under low high) (x : Nat) : boxSum b low x ≤ boxSum b high x := by
  unfold boxSum
  rw [h.size]
  gcongr with i
  · exact h.le i
  · exact h.le 0
  · exact h.le _

theorem Under.edgeSum_le (h : Under low high) (x : Nat) : edgeSum b low x ≤ edgeSum b high x := by
  unfold edgeSum
  rw [h.size]
  exact Nat.add_le_add (h.le _) (h.le _)

/-- A box has a place for every one of its samples. -/
theorem Under.boxSum_byte (h : Under low high) {x : Nat} (inside : x < high.size) :
    boxSum b high x ≤ 255 * (2 * b.reach + 1) := by
  have inner := Finset.sum_le_card_nsmul (Finset.Ico (x - b.reach) (min high.size (x + b.reach + 1)))
    (fun i => high[i]!) 255 fun i _ => h.byte i
  have left := Nat.mul_le_mul_right (b.reach - x) (h.byte 0)
  have right := Nat.mul_le_mul_right (x + b.reach - (high.size - 1)) (h.byte (high.size - 1))
  rw [Nat.card_Ico, smul_eq_mul] at inner
  unfold boxSum
  omega

theorem Under.boxLine (fits : b.Fits) (h : Under low high) : Under (boxLine b low) (boxLine b high) := by
  refine ⟨by rw [size_boxLine, size_boxLine, h.size], fun x => ?_, fun x => ?_⟩
  · rcases Nat.lt_or_ge x high.size with inside | outside
    · rw [getElem!_boxLine b low (h.size ▸ inside), getElem!_boxLine b high inside]
      gcongr
      · exact h.boxSum_le x
      · exact h.edgeSum_le x
    · rw [getElem!_neg _ _ (by rw [size_boxLine, h.size]; omega)]
      exact Nat.zero_le _
  · rcases Nat.lt_or_ge x high.size with inside | outside
    · have ends : edgeSum b high x ≤ 255 * 2 := Nat.add_le_add (h.byte _) (h.byte _)
      have total : b.weight * boxSum b high x + b.edge * edgeSum b high x ≤ 255 * fullWeight := by
        calc b.weight * boxSum b high x + b.edge * edgeSum b high x
            ≤ b.weight * (255 * (2 * b.reach + 1)) + b.edge * (255 * 2) :=
              Nat.add_le_add (Nat.mul_le_mul_left _ (h.boxSum_byte inside)) (Nat.mul_le_mul_left _ ends)
          _ = 255 * ((2 * b.reach + 1) * b.weight + 2 * b.edge) := by ring
          _ ≤ 255 * fullWeight := Nat.mul_le_mul_left 255 fits
      rw [getElem!_boxLine b high inside]
      rw [fullWeight] at total ⊢
      omega
    · rw [getElem!_neg _ _ (by rw [size_boxLine]; omega)]
      exact Nat.zero_le _

theorem Under.smoothLine (fits : b.Fits) (h : Under low high) : Under (smoothLine b low) (smoothLine b high) :=
  ((h.boxLine fits).boxLine fits).boxLine fits

/-! ## Planes -/

/-- Planes of as many lines, the lines of the first under those of the second. -/
structure PlaneUnder (low high : Array (Array Nat)) : Prop where
  size : low.size = high.size
  line : ∀ y : Nat, Under low[y]! high[y]!

theorem under_nil : Under #[] #[] := ⟨rfl, fun _ => le_rfl, fun _ => Nat.zero_le _⟩

theorem getElem!_map {α β : Type} [Inhabited α] [Inhabited β] (f : α → β) (s : Array α) (i : Nat) :
    (s.map f)[i]! = if i < s.size then f s[i]! else default := by
  split
  · next inside =>
    rw [getElem!_pos _ _ (by rwa [Array.size_map]), getElem!_pos s i inside, Array.getElem_map]
  · next outside => rw [getElem!_neg _ _ (by rwa [Array.size_map])]

theorem planeUnder_ofFn {n : Nat} {f g : Fin n → Array Nat} (h : ∀ i, Under (f i) (g i)) :
    PlaneUnder (Array.ofFn f) (Array.ofFn g) := by
  refine ⟨by rw [Array.size_ofFn, Array.size_ofFn], fun y => ?_⟩
  rw [getElem!_ofFn, getElem!_ofFn]
  split
  · exact h _
  · exact under_nil

variable {low high : Array (Array Nat)}

theorem PlaneUnder.smooth (fits : b.Fits) (h : PlaneUnder low high) :
    PlaneUnder (low.map (smoothLine b)) (high.map (smoothLine b)) := by
  refine ⟨by rw [Array.size_map, Array.size_map, h.size], fun y => ?_⟩
  rw [getElem!_map, getElem!_map, h.size]
  split
  · exact (h.line y).smoothLine fits
  · exact under_nil

theorem PlaneUnder.transposed (h : PlaneUnder low high) (width : Nat) :
    PlaneUnder (transposed width low) (transposed width high) := by
  refine planeUnder_ofFn fun x => ⟨by rw [Array.size_map, Array.size_map, h.size], fun y => ?_, fun y => ?_⟩
  · rw [getElem!_map, getElem!_map, h.size]
    split
    · exact (h.line y).le x
    · exact le_rfl
  · rw [getElem!_map]
    split
    · exact (h.line y).byte x
    · exact Nat.zero_le _

end Blur

/-! ## Pictures -/

theorem mulByte_le (v a : UInt8) : mulByte v a ≤ a := by
  have small := a.toNat_lt
  have bound : v.toNat * a.toNat ≤ 255 * a.toNat := Nat.mul_le_mul_right _ (by have := v.toNat_lt; omega)
  have part : (v.toNat * a.toNat + 128) / 256 ≤ a.toNat := by omega
  rw [UInt8.le_iff_toNat_le, mulByte, UInt8.toNat_ofNat']
  exact (Nat.mod_le _ _).trans (by omega)

/-- No colour is above the opacity. -/
structure Pixel.IsPremultiplied (c : Pixel) : Prop where
  r : c.r ≤ c.a
  g : c.g ≤ c.a
  b : c.b ≤ c.a

namespace Picture

theorem pixel_generate {width height x y : Nat} (f : Nat → Nat → Pixel) (hx : x < width) (hy : y < height) :
    (generate width height f).pixel x y = f x y := by
  have inside : y * width + x < width * height := by
    calc y * width + x < y * width + width := Nat.add_lt_add_left hx _
      _ = (y + 1) * width := (Nat.succ_mul y width).symm
      _ ≤ height * width := Nat.mul_le_mul_right _ hy
      _ = width * height := Nat.mul_comm ..
  have row : (y * width + x) / width = y := by
    rw [Nat.mul_comm, Nat.mul_add_div (by omega), Nat.div_eq_of_lt hx, Nat.add_zero]
  have column : (y * width + x) % width = x := by
    rw [Nat.mul_comm, Nat.mul_add_mod, Nat.mod_eq_of_lt hx]
  simp only [pixel, at?, generate, if_pos hx, Array.getElem?_ofFn, dif_pos inside, row, column, Option.getD_some]

theorem pixel_of_outside {p : Picture} {x y : Nat} (outside : ¬(x < p.width ∧ y < p.height)) :
    p.pixel x y = .clear := by
  rw [pixel, at?]
  split
  · next hx =>
    have beyond : p.pixels.size ≤ y * p.width + x := by
      rw [p.size_eq]
      calc p.width * p.height = p.height * p.width := Nat.mul_comm ..
        _ ≤ y * p.width := Nat.mul_le_mul_right _ (by omega)
        _ ≤ y * p.width + x := Nat.le_add_right ..
    rw [Array.getElem?_eq_none beyond]
    rfl
  · rfl

/-- A picture all of whose colours are premultiplied. -/
def IsPremultiplied (p : Picture) : Prop := ∀ x y, (p.pixel x y).IsPremultiplied

theorem isPremultiplied_generate {width height : Nat} {f : Nat → Nat → Pixel} (h : ∀ x y, (f x y).IsPremultiplied) :
    (generate width height f).IsPremultiplied := by
  intro x y
  by_cases inside : x < width ∧ y < height
  · rw [pixel_generate f inside.1 inside.2]
    exact h x y
  · rw [pixel_of_outside inside]
    exact ⟨UInt8.le_refl _, UInt8.le_refl _, UInt8.le_refl _⟩

theorem isPremultiplied_premultiplied (p : Picture) : p.premultiplied.IsPremultiplied :=
  isPremultiplied_generate fun _ _ => ⟨mulByte_le .., mulByte_le .., mulByte_le ..⟩

variable {p : Picture} {b : Blur.Box}

theorem smoothChannel_under (fits : b.Fits) {low high : Pixel → UInt8}
    (h : ∀ x y, low (p.pixel x y) ≤ high (p.pixel x y)) :
    Blur.PlaneUnder (Blur.smoothChannel b p low) (Blur.smoothChannel b p high) := by
  refine (((Blur.planeUnder_ofFn fun y => ⟨?_, fun x => ?_, fun x => ?_⟩).smooth fits).transposed _ |>.smooth
    fits).transposed _
  · rw [Array.size_ofFn, Array.size_ofFn]
  · rw [Blur.getElem!_ofFn, Blur.getElem!_ofFn]
    split
    · exact UInt8.le_iff_toNat_le.mp (h _ _)
    · exact le_rfl
  · rw [Blur.getElem!_ofFn]
    split
    · exact Nat.le_of_lt_succ (UInt8.toNat_lt _)
    · exact Nat.zero_le _

/-- Blurring by boxes keeps every colour below the opacity. -/
theorem isPremultiplied_smoothed (fits : b.Fits) (h : p.IsPremultiplied) : (p.smoothed b).IsPremultiplied := by
  have channel {low : Pixel → UInt8} (below : ∀ x y, low (p.pixel x y) ≤ (p.pixel x y).a) (x y : Nat) :
      (((Blur.smoothChannel b p low)[y]!)[x]!).toUInt8 ≤ (((Blur.smoothChannel b p (·.a))[y]!)[x]!).toUInt8 := by
    have planes : Blur.PlaneUnder (Blur.smoothChannel b p low) (Blur.smoothChannel b p (·.a)) :=
      smoothChannel_under fits below
    have le := (planes.line y).le x
    have byte := (planes.line y).byte x
    rw [UInt8.le_iff_toNat_le, UInt8.toNat_ofNat_of_lt' (by simp only [UInt8.size]; omega),
      UInt8.toNat_ofNat_of_lt' (by simp only [UInt8.size]; omega)]
    exact le
  exact isPremultiplied_generate fun x y =>
    ⟨channel (fun x y => (h x y).r) x y, channel (fun x y => (h x y).g) x y, channel (fun x y => (h x y).b) x y⟩

end Picture

end VectorGraph
