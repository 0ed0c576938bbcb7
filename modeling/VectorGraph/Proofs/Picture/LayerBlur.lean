import VectorGraph.Picture.LayerBlur
import VectorGraph.Proofs.Number.HalfEven
import VectorGraph.Proofs.Picture.BoxBlur

/-!
Blending along an axis keeps pixels valid.

Colours between zero and the opacity stay there when a layer is faded (`IsPremultiplied.fade`) and when it is laid
over others (`IsPremultiplied.laidOver`), so they stay there through any number of layers (`IsPremultiplied.stack`).
Hence the bytes at the end need no clipping (`unclipped_toPixel`). Before the axis begins all masks are zero, nothing
is laid over the source, and taking the opacity out of a colour gives back the byte that it was made of
(`toPixel_ofPixel`). This is said in exact arithmetic, and for any blur whose colours are between zero and the opacity.
-/
namespace VectorGraph

section Exact

variable {K : Type} [ExactField K] [LinearOrder K] [IsStrictOrderedRing K]

namespace Tint

/-- All colours are between zero and the opacity, and that is at most one. -/
structure IsPremultiplied (c : Tint K) : Prop where
  r : 0 ≤ c.r ∧ c.r ≤ c.a
  g : 0 ≤ c.g ∧ c.g ≤ c.a
  b : 0 ≤ c.b ∧ c.b ≤ c.a
  a : c.a ≤ 1

omit [IsStrictOrderedRing K] in
theorem IsPremultiplied.nonneg {c : Tint K} (h : c.IsPremultiplied) : 0 ≤ c.a := h.r.1.trans h.r.2

/-! ## Pixels -/

theorem part_mem (v : UInt8) : 0 ≤ (v.toNat : K) / (255 : Nat) ∧ (v.toNat : K) / (255 : Nat) ≤ 1 := by
  have small : (v.toNat : K) ≤ (255 : Nat) := by exact_mod_cast Nat.le_of_lt_succ v.toNat_lt
  exact ⟨by positivity, div_le_one_of_le₀ small (Nat.cast_nonneg _)⟩

theorem isPremultiplied_ofPixel (p : Pixel) : (ofPixel p : Tint K).IsPremultiplied := by
  have colour (v : UInt8) : 0 ≤ (v.toNat : K) / (255 : Nat) * ((p.a.toNat : K) / (255 : Nat)) ∧
      (v.toNat : K) / (255 : Nat) * ((p.a.toNat : K) / (255 : Nat)) ≤ (p.a.toNat : K) / (255 : Nat) :=
    ⟨mul_nonneg (part_mem v).1 (part_mem p.a).1, mul_le_of_le_one_left (part_mem p.a).1 (part_mem v).2⟩
  exact ⟨colour p.r, colour p.g, colour p.b, (part_mem p.a).2⟩

theorem isPremultiplied_ofPremultiplied {p : Pixel} (h : p.IsPremultiplied) :
    (ofPremultiplied p : Tint K).IsPremultiplied := by
  have colour {v : UInt8} (below : v ≤ p.a) : 0 ≤ (v.toNat : K) / (255 : Nat) ∧
      (v.toNat : K) / (255 : Nat) ≤ (p.a.toNat : K) / (255 : Nat) := by
    have le : (v.toNat : K) ≤ p.a.toNat := by exact_mod_cast UInt8.le_iff_toNat_le.mp below
    exact ⟨(part_mem v).1, by gcongr⟩
  exact ⟨colour h.r, colour h.g, colour h.b, (part_mem p.a).2⟩

/-! ## Layers -/

theorem IsPremultiplied.fade {c : Tint K} {m : K} (h : c.IsPremultiplied) (low : 0 ≤ m) (high : m ≤ 1) :
    (c.fade m).IsPremultiplied := by
  have colour {v : K} (range : 0 ≤ v ∧ v ≤ c.a) : 0 ≤ v * m ∧ v * m ≤ c.a * m :=
    ⟨mul_nonneg range.1 low, mul_le_mul_of_nonneg_right range.2 low⟩
  exact ⟨colour h.r, colour h.g, colour h.b, mul_le_one₀ h.a low high⟩

/-- A layer takes as much from what is below as it covers. -/
theorem IsPremultiplied.laidOver {layer below : Tint K} (h : layer.IsPremultiplied) (h' : below.IsPremultiplied) :
    (layer.laidOver below).IsPremultiplied := by
  have one : ((1 : Nat) : K) = 1 := Nat.cast_one
  have rest : 0 ≤ ((1 : Nat) : K) - layer.a := by linarith [h.a]
  have colour {v v' : K} (range : 0 ≤ v ∧ v ≤ layer.a) (range' : 0 ≤ v' ∧ v' ≤ below.a) :
      0 ≤ v + v' * ((1 : Nat) - layer.a) ∧
        v + v' * ((1 : Nat) - layer.a) ≤ layer.a + below.a * ((1 : Nat) - layer.a) :=
    ⟨add_nonneg range.1 (mul_nonneg range'.1 rest),
      add_le_add range.2 (mul_le_mul_of_nonneg_right range'.2 rest)⟩
  refine ⟨colour h.r h'.r, colour h.g h'.g, colour h.b h'.b, ?_⟩
  calc layer.a + below.a * ((1 : Nat) - layer.a) ≤ layer.a + 1 * ((1 : Nat) - layer.a) := by
        gcongr
        exact h'.a
    _ = 1 := by rw [one]; ring

/-- Any number of layers keeps colours between zero and the opacity. -/
theorem IsPremultiplied.stack : ∀ {base : Tint K} (layers : List (Tint K × K)), base.IsPremultiplied →
    (∀ l ∈ layers, l.1.IsPremultiplied ∧ 0 ≤ l.2 ∧ l.2 ≤ 1) → (base.stack layers).IsPremultiplied
  | _, [], h, _ => h
  | base, l :: layers, h, each => by
    obtain ⟨sound, low, high⟩ := each l List.mem_cons_self
    exact stack layers ((sound.fade low high).laidOver h) fun l' mem => each l' (List.mem_cons_of_mem l mem)

omit [LinearOrder K] [IsStrictOrderedRing K] in
/-- A layer under a mask of zero covers nothing. -/
theorem laidOver_fade_zero (layer below : Tint K) : (layer.fade 0).laidOver below = below := by
  simp [fade, laidOver]

omit [LinearOrder K] [IsStrictOrderedRing K] in
theorem stack_of_zero : ∀ {base : Tint K} (layers : List (Tint K × K)), (∀ l ∈ layers, l.2 = 0) →
    base.stack layers = base
  | _, [], _ => rfl
  | base, l :: layers, zero => by
    have rest : base.stack layers = base := stack_of_zero layers fun l' mem => zero l' (List.mem_cons_of_mem l mem)
    calc base.stack (l :: layers) = ((l.1.fade l.2).laidOver base).stack layers := rfl
      _ = base.stack layers := by rw [zero l List.mem_cons_self, laidOver_fade_zero]
      _ = base := rest

/-! ## Plain colours -/

variable [FloorRing K]

/-- A colour with the opacity taken out of it. -/
def plain (c : Tint K) (v : K) : K := if 0 < c.a then v / c.a else 0

/-- The bytes of a pixel are a tint's plain colours and opacity, rounded and not clipped. -/
structure Unclipped (c : Tint K) (p : Pixel) : Prop where
  r : (p.r.toNat : ℤ) = nearestEven (c.plain c.r * 255)
  g : (p.g.toNat : ℤ) = nearestEven (c.plain c.g * 255)
  b : (p.b.toNat : ℤ) = nearestEven (c.plain c.b * 255)
  a : (p.a.toNat : ℤ) = nearestEven (c.a * 255)

theorem unclipped_toPixel {c : Tint K} (h : c.IsPremultiplied) : c.Unclipped (c.toPixel exactByte) := by
  have level {v : K} (low : 0 ≤ v) (high : v ≤ 1) :
      ((exactByte (v * (255 : Nat))).toNat : ℤ) = nearestEven (v * 255) := by
    rw [Nat.cast_ofNat]
    exact toNat_exactByte (by linarith) (by linarith)
  have colour {v : K} (range : 0 ≤ v ∧ v ≤ c.a) : ((exactByte ((if ((0 : Nat) : K) < c.a then v / c.a
      else ((0 : Nat) : K)) * (255 : Nat))).toNat : ℤ) = nearestEven (c.plain v * 255) := by
    rw [plain, Nat.cast_zero]
    split
    · exact level (div_nonneg range.1 h.nonneg) (div_le_one_of_le₀ range.2 h.nonneg)
    · exact level le_rfl zero_le_one
  exact ⟨colour h.r, colour h.g, colour h.b, level h.nonneg h.a⟩

/-- A pixel comes back from its tint if there is anything to see of it. -/
theorem toPixel_ofPixel (p : Pixel) : (ofPixel p : Tint K).toPixel exactByte = if 0 < p.a then p else .clear := by
  have full : ((255 : Nat) : K) ≠ 0 := Nat.cast_ne_zero.mpr (by decide)
  have byte (v : UInt8) : exactByte ((v.toNat : K) / (255 : Nat) * (255 : Nat)) = v := by
    rw [div_mul_cancel₀ _ full, exactByte_natCast]
  split
  · next visible =>
    have positive : 0 < (p.a.toNat : K) / (255 : Nat) :=
      div_pos (Nat.cast_pos.mpr (UInt8.lt_iff_toNat_lt.mp visible)) (Nat.cast_pos.mpr (by decide))
    simp only [toPixel, ofPixel, Nat.cast_zero, if_pos positive, mul_div_cancel_right₀ _ positive.ne', byte]
  · next hidden =>
    have none : p.a.toNat = 0 := Nat.le_zero.mp (not_lt.mp fun h => hidden (UInt8.lt_iff_toNat_lt.mpr h))
    have zero : exactByte (0 : K) = 0 := by simpa using exactByte_natCast (K := K) 0
    simp [toPixel, ofPixel, none, zero, Pixel.clear]

end Tint

namespace LayerBlur

/-! ## Masks -/

theorem ramp_mem (start width position : K) :
    0 ≤ ramp start width position ∧ ramp start width position ≤ 1 := by
  rw [ramp, Nat.cast_zero, Nat.cast_one]
  exact clip_mem zero_le_one _

/-- Before an axis begins its layers are hidden. -/
theorem mask_of_before {a b : K × K} {x y : Nat} (count i : Nat)
    (before : ((x : K) + 0.5 - a.1) * (b.1 - a.1) + ((y : K) + 0.5 - a.2) * (b.2 - a.2) ≤ 0) :
    mask (Axis.between a b) count i x y = 0 := by
  have square : 0 ≤ (b.1 - a.1) * (b.1 - a.1) + (b.2 - a.2) * (b.2 - a.2) :=
    add_nonneg (mul_self_nonneg _) (mul_self_nonneg _)
  have position : (Axis.between a b).position x y ≤ 0 := div_nonpos_of_nonpos_of_nonneg before square
  have start : 0 ≤ ((i - 1 : Nat) : K) / count := by positivity
  have width : 0 ≤ (i : K) / count - ((i - 1 : Nat) : K) / count := by
    rw [sub_nonneg]
    gcongr
    exact Nat.sub_le i 1
  rw [mask, ramp, Nat.cast_zero, Nat.cast_one]
  exact clip_of_le zero_le_one (div_nonpos_of_nonpos_of_nonneg (by linarith) width)

/-! ## Blends -/

section Blend

variable [FloorRing K] (blur : K → Layer K) (a b : K × K) (radius : K) (steps : Nat) (source : Picture)

/-- The tint at a place when the first `k` layers are laid over the source. -/
def after (k x y : Nat) : Tint K :=
  (Tint.ofPixel (source.pixel x y)).stack (((layers blur radius steps).map fun (i, layer) =>
    (layer x y, mask (Axis.between a b) steps i x y)).take k)

/-- What a blend of a picture along the axis from `a` to `b` keeps. -/
structure KeepsPixels : Prop where
  width : (blend exactByte blur (.between a b) radius steps source).width = source.width
  height : (blend exactByte blur (.between a b) radius steps source).height = source.height
  /-- Whatever number of layers is laid over the source, colours are between zero and the opacity. -/
  accumulated : ∀ k x y, x < source.width → y < source.height →
    (after blur a b radius steps source k x y).IsPremultiplied
  /-- The bytes come from the last tint by rounding alone. -/
  unclipped : ∀ x y, x < source.width → y < source.height →
    (after blur a b radius steps source steps x y).Unclipped
      ((blend exactByte blur (.between a b) radius steps source).pixel x y)
  /-- A pixel before the beginning of the axis keeps its bytes, unless there is nothing to see of it. -/
  sharp : ∀ x y, x < source.width → y < source.height →
    ((x : K) + 0.5 - a.1) * (b.1 - a.1) + ((y : K) + 0.5 - a.2) * (b.2 - a.2) ≤ 0 →
    (blend exactByte blur (.between a b) radius steps source).pixel x y =
      if 0 < (source.pixel x y).a then source.pixel x y else .clear

variable {blur a b radius steps source}

omit [LinearOrder K] [IsStrictOrderedRing K] [FloorRing K] in
theorem length_layers : (layers blur radius steps).length = steps := by
  rw [layers, List.length_map, List.length_range]

omit [IsStrictOrderedRing K] in
theorem blend_width (square : source.width = source.height) (axis : Axis K) :
    (blend exactByte blur axis radius steps source).width = source.width := by
  have given : (blend exactByte blur axis radius steps source).width =
      if steps ≠ 0 && source.width = 1 then source.height else source.width := rfl
  rw [given, ← square, ite_self]

omit [IsStrictOrderedRing K] in
/-- In a square every pixel lies under its own place of the masks. -/
theorem pixel_blend (square : source.width = source.height) {x y : Nat} (hx : x < source.width)
    (hy : y < source.height) : (blend exactByte blur (.between a b) radius steps source).pixel x y =
      (after blur a b radius steps source steps x y).toPixel exactByte := by
  have column : (if source.width = 1 then 0 else x) = x := by
    split <;> omega
  have width : x < (if steps ≠ 0 && source.width = 1 then source.height else source.width) := by
    rw [square, ite_self, ← square]
    exact hx
  have all : (layers blur radius steps).map (fun (i, layer) => (layer x y, mask (Axis.between a b) steps i x y)) =
      ((layers blur radius steps).map fun (i, layer) =>
        (layer x y, mask (Axis.between a b) steps i x y)).take steps := by
    rw [List.take_of_length_le]
    rw [List.length_map, length_layers]
  rw [blend, Picture.pixel_generate _ width hy, pixelAt, length_layers, ← square, column, after, ← all]

/-- A blend of a square keeps its pixels valid, and those before the axis as they are. -/
theorem blend_keeps_pixels (square : source.width = source.height)
    (sound : ∀ l ∈ layers blur radius steps, ∀ x y, x < source.width → y < source.height →
      (l.2 x y).IsPremultiplied) : KeepsPixels blur a b radius steps source := by
  have accumulated : ∀ k x y, x < source.width → y < source.height →
      (after blur a b radius steps source k x y).IsPremultiplied := by
    intro k x y hx hy
    refine (Tint.isPremultiplied_ofPixel _).stack _ fun l mem => ?_
    obtain ⟨⟨i, layer⟩, drawn, rfl⟩ := List.mem_map.mp (List.mem_of_mem_take mem)
    exact ⟨sound _ drawn x y hx hy, ramp_mem _ _ _⟩
  refine ⟨blend_width square _, rfl, accumulated, fun x y hx hy => ?_, fun x y hx hy before => ?_⟩
  · rw [pixel_blend square hx hy]
    exact Tint.unclipped_toPixel (accumulated steps x y hx hy)
  · have uncovered : after blur a b radius steps source steps x y = Tint.ofPixel (source.pixel x y) := by
      refine Tint.stack_of_zero _ fun l mem => ?_
      obtain ⟨⟨i, layer⟩, -, rfl⟩ := List.mem_map.mp (List.mem_of_mem_take mem)
      exact mask_of_before steps i before
    rw [pixel_blend square hx hy, uncovered, Tint.toPixel_ofPixel]

omit [FloorRing K] in
/-- Layers blurred by boxes have colours between zero and the opacity. -/
theorem isPremultiplied_of_boxes {box : K → Blur.Box} (fits : ∀ r, (box r).Fits) :
    ∀ l ∈ layers (fun r => Tint.ofPicture (source.premultiplied.smoothed (box r))) radius steps,
      ∀ x y, (l.2 x y).IsPremultiplied := by
  intro l drawn x y
  obtain ⟨k, -, rfl⟩ := List.mem_map.mp drawn
  exact Tint.isPremultiplied_ofPremultiplied
    (Picture.isPremultiplied_smoothed (fits _) source.isPremultiplied_premultiplied x y)

end Blend

end LayerBlur

end Exact

namespace LayerBlur

/-- A faint and a hidden pixel over two opaque ones. -/
def fourPixels : Picture := .generate 2 2 fun x y =>
  if y = 0 then if x = 0 then ⟨200, 100, 50, 128⟩ else ⟨10, 20, 30, 0⟩ else ⟨255, 0, 9, 255⟩

/-- The boxes of a blur by one pixel and by two. -/
def boxOf (r : ℚ) : Blur.Box := if r < 2 then ⟨0, 11184811, 2796202⟩ else ⟨1, 4473924, 1677722⟩

/-- The four pixels blurred. -/
def fourBlurred (r : ℚ) : Layer ℚ := Tint.ofPicture (fourPixels.premultiplied.smoothed (boxOf r))

theorem fits_boxOf (r : ℚ) : (boxOf r).Fits := by
  unfold boxOf
  split <;> decide

theorem blend_keeps_four_pixels : fourPixels.width = fourPixels.height ∧
    (∀ l ∈ layers fourBlurred 2 2, ∀ x y, x < fourPixels.width → y < fourPixels.height →
      (l.2 x y).IsPremultiplied) ∧ KeepsPixels fourBlurred (1, 1) (2, 2) 2 2 fourPixels := by
  have sound : ∀ l ∈ layers fourBlurred 2 2, ∀ x y, x < fourPixels.width → y < fourPixels.height →
      (l.2 x y).IsPremultiplied := fun l drawn x y _ _ => isPremultiplied_of_boxes fits_boxOf l drawn x y
  exact ⟨rfl, sound, blend_keeps_pixels rfl sound⟩

end LayerBlur

end VectorGraph
