import Mathlib.Data.List.Basic
import VectorGraph.Proofs.Contour.Marching
import VectorGraph.Proofs.Contour.Stitching
import VectorGraph.Proofs.Picture.Plain
import VectorGraph.Proofs.Results

/-!
The outline of a grid.

At a scale at which the points of a grid have different keys, the map of its segments holds all of them. Its
subpaths draw every segment once, no walk comes near the bound on its steps, and where the border of the grid
is filled evenly every subpath is closed (`outline_draws_segments`).
-/
namespace VectorGraph.Contour

/-! ## Keys -/

section Keys

variable {s t : String}

theorem comma_not_mem_append (hs : ',' ∉ s.toList) (ht : ',' ∉ t.toList) : ',' ∉ (s ++ t).toList := by
  rw [String.toList_append, List.mem_append]
  exact not_or.mpr ⟨hs, ht⟩

theorem comma_not_mem_repr (n : Nat) : ',' ∉ n.repr.toList := by
  intro mem
  have digit := isDigit_of_mem_repr mem
  revert digit
  decide

theorem comma_not_mem_fixedDigits (places n : Nat) : ',' ∉ (fixedDigits places n).toList := by
  have padded : ∀ width n, ',' ∉ (padded width n).toList := by
    intro width n
    refine comma_not_mem_append (fun mem => ?_) (comma_not_mem_repr n)
    rw [String.toList_ofList] at mem
    have same := (List.mem_replicate.mp mem).2
    revert same
    decide
  exact comma_not_mem_append (comma_not_mem_append (comma_not_mem_repr _) (by decide)) (padded _ _)

theorem comma_not_mem_fixedText (places : Nat) (x : Float) : ',' ∉ (fixedText places x).toList := by
  have sign : ∀ negative, ',' ∉ (signText negative).toList := by decide
  unfold fixedText
  split
  · decide
  · exact comma_not_mem_append (sign _) (by decide)
  · exact comma_not_mem_append (sign _) (comma_not_mem_fixedDigits places _)

/-- Two texts without commas can be told from what is written with a comma between them. -/
theorem joined_inj {s' t' : String} (hs : ',' ∉ s.toList) (ht : ',' ∉ t.toList)
    (same : s ++ "," ++ t = s' ++ "," ++ t') : s = s' ∧ t = t' := by
  have texts := congrArg String.toList same
  simp only [String.toList_append, List.append_assoc] at texts
  obtain ⟨first, -, second⟩ := (List.append_cons_inj_of_notMem hs ht).mp texts
  exact ⟨String.toList_inj.mp first, String.toList_inj.mp second⟩

end Keys

/-- The coordinates can be read off a key. -/
theorem pointKey_inj {scale : Scalar} {p q : HalfPoint} (same : pointKey scale p = pointKey scale q) :
    coordinateKey scale p.1 = coordinateKey scale q.1 ∧ coordinateKey scale p.2 = coordinateKey scale q.2 :=
  joined_inj (comma_not_mem_fixedText 2 _) (comma_not_mem_fixedText 2 _) same

/-- Whether two coordinates can be read from a key. -/
def IsKey (point : String) : Prop := point.toList.count ',' = 1

theorem isKey_pointKey (scale : Scalar) (p : HalfPoint) : IsKey (pointKey scale p) := by
  have one := List.count_eq_zero.mpr (comma_not_mem_fixedText 2 ((scaled scale p.1).toFloat?.getD 0))
  have two := List.count_eq_zero.mpr (comma_not_mem_fixedText 2 ((scaled scale p.2).toFloat?.getD 0))
  have comma : (",".toList).count ',' = 1 := by decide
  unfold IsKey pointKey coordinateKey
  rw [String.toList_append, String.toList_append, List.count_append, List.count_append, one, two, comma]

theorem IsKey.split {point : String} (h : IsKey point) : ∃ text, splitPoint point = .ok text := by
  unfold splitPoint
  exact ⟨_, if_pos h⟩

/-- The commands of a subpath through keys can be written. -/
theorem Subpath.Holds.commands {s : Subpath String} (h : s.Holds IsKey) : ∃ parts, s.commands = .ok parts := by
  obtain ⟨first, hfirst⟩ := h.1.split
  have lines : ∀ p ∈ s.rest, ∃ text, (do return "L " ++ (← splitPoint p)) = Except.ok text := by
    intro p hp
    obtain ⟨text, htext⟩ := (h.2 p hp).split
    exact ⟨"L " ++ text, by rw [htext]; rfl⟩
  obtain ⟨rest, hrest⟩ := exists_mapM_ok s.rest lines
  refine ⟨("M " ++ first) :: rest ++ (if s.closed then ["Z"] else []), ?_⟩
  rw [Subpath.commands, hfirst]
  change Except.bind (s.rest.mapM _) _ = _
  rw [hrest]
  rfl

/-- A map of keys has a path description, which consists of the commands of its subpaths. -/
theorem stitchText_ok {m : SegmentMap String} (keys : m.Holds IsKey) (maxSteps : Nat) :
    ∃ commands, (stitch m maxSteps).mapM Subpath.commands = .ok commands ∧
      stitchText m maxSteps = .ok (" ".intercalate commands.flatten) := by
  -- no end is empty, so none is passed over
  have unfiltered : (fun p => (m.end? p).filter (· != "")) = m.end? := by
    funext p
    cases ends : m.end? p with
    | none => rfl
    | some q =>
      have key := keys.ends p q ends
      have written : (q != "") = true := by
        rw [bne_iff_ne]
        rintro rfl
        cases key
      rw [Option.filter_some, if_pos written]
  have holds : ∀ s ∈ stitch m maxSteps, s.Holds IsKey :=
    subpathsFrom_holds keys.ends m.starts ∅ fun p hp => keys.starts p (List.mem_reverse.mp hp)
  obtain ⟨commands, written⟩ := exists_mapM_ok _ fun s hs => (holds s hs).commands
  refine ⟨commands, written, ?_⟩
  unfold stitchText
  dsimp only
  rw [unfiltered]
  exact congrArg (Except.bind · _) written

/-! ## The map of the segments -/

section Keyed

variable {g : Grid} {κ : Type} {key : HalfPoint → κ}

/-- Whether the points of a grid have different keys. -/
def Grid.TellsApart (g : Grid) (key : HalfPoint → κ) : Prop :=
  ∀ p q, g.HasPoint p → g.HasPoint q → key p = key q → p = q

/-- The segments by the keys of their points. -/
def keyed (key : HalfPoint → κ) (g : Grid) : List (κ × κ) := (segments g).map fun s => (key s.1, key s.2)

namespace Grid.TellsApart

/-- What is different for segments is so for their keys. -/
theorem nodup_keys (h : g.TellsApart key) {f : HalfPoint × HalfPoint → HalfPoint}
    (inside : ∀ s ∈ segments g, g.HasPoint (f s)) (distinct : ((segments g).map f).Nodup) :
    (((segments g).map f).map key).Nodup := by
  refine distinct.map_on fun p hp q hq same => ?_
  obtain ⟨s, hs, rfl⟩ := List.mem_map.mp hp
  obtain ⟨t, ht, rfl⟩ := List.mem_map.mp hq
  exact h _ _ (inside s hs) (inside t ht) same

theorem nodup_starts (h : g.TellsApart key) : ((keyed key g).map Prod.fst).Nodup := by
  have all := h.nodup_keys (fun s hs => (hasPoint_of_mem hs).1) (Contour.nodup_starts g)
  rw [List.map_map] at all
  rw [keyed, List.map_map]
  exact all

theorem nodup_ends (h : g.TellsApart key) : ((keyed key g).map Prod.snd).Nodup := by
  have all := h.nodup_keys (fun s hs => (hasPoint_of_mem hs).2) (Contour.nodup_ends g)
  rw [List.map_map] at all
  rw [keyed, List.map_map]
  exact all

variable [BEq κ] [Hashable κ] [LawfulBEq κ]

/-- No segment is lost in the map. -/
theorem toList_marchWith (h : g.TellsApart key) : (marchWith key g).toList = keyed key g :=
  SegmentMap.toList_ofList h.nodup_starts

theorem length_starts (h : g.TellsApart key) : (marchWith key g).starts.length = (segments g).length := by
  have neat : (marchWith key g).Neat := SegmentMap.neat_ofList _
  rw [← neat.map_fst_toList, h.toList_marchWith, List.length_map, keyed, List.length_map]

theorem end?_eq_some (h : g.TellsApart key) {p q : κ} :
    (marchWith key g).end? p = some q ↔ (p, q) ∈ keyed key g := by
  have neat : (marchWith key g).Neat := SegmentMap.neat_ofList _
  rw [← neat.mem_toList, h.toList_marchWith]

/-- Where the border is filled evenly, the segments run in loops. -/
theorem looped (h : g.TellsApart key) (even : g.HasEvenBorder) : Looped (marchWith key g).end? := by
  constructor
  · intro p q leads
    obtain ⟨s, hs, same⟩ := List.mem_map.mp (h.end?_eq_some.mp leads)
    obtain ⟨-, rfl⟩ := Prod.mk.inj same
    obtain ⟨r, hr, start⟩ := exists_start even hs
    have next : (marchWith key g).end? (key s.2) = some (key r.2) :=
      h.end?_eq_some.mpr (List.mem_map.mpr ⟨r, hr, by rw [start]⟩)
    exact next ▸ Option.some_ne_none _
  · intro p p' q leads leads'
    have same := List.inj_on_of_nodup_map h.nodup_ends (h.end?_eq_some.mp leads) (h.end?_eq_some.mp leads') rfl
    exact congrArg Prod.fst same

end Grid.TellsApart

/-- There are fewer segments than twice the number of samples. -/
theorem length_segments_lt (wide : 2 ≤ g.width) (high : 2 ≤ g.height) :
    (segments g).length < 2 * g.width * g.height := by
  have cells := length_segments g
  have fewer : (g.height - 1) * ((g.width - 1) * 2) < g.height * (g.width * 2) :=
    Nat.mul_lt_mul'' (by omega) (by omega)
  calc (segments g).length
      ≤ (g.height - 1) * ((g.width - 1) * 2) := cells
    _ < g.height * (g.width * 2) := fewer
    _ = 2 * g.width * g.height := by rw [Nat.mul_comm, Nat.mul_comm g.width]

end Keyed

/-! ## The outline -/

variable {g : Grid} {scale : Scalar}

/-- Whether keys can be written at a scale, and the points of the grid have different ones. -/
structure Grid.Legible (g : Grid) (scale : Scalar) : Prop where
  isScale : Contour.isScale scale = true
  distinct : g.TellsApart (pointKey scale)

/-- A scale at which the coordinates of a grid have different texts is legible. -/
theorem Grid.legible_of_coordinates {size : Nat} (isScale : Contour.isScale scale = true)
    (wide : g.width ≤ size) (high : g.height ≤ size) (pos : 0 < size)
    (distinct : ∀ m < 2 * size, ∀ n < 2 * size, coordinateKey scale m = coordinateKey scale n → m = n) :
    g.Legible scale where
  isScale := isScale
  distinct p q hp hq same := by
    obtain ⟨sameX, sameY⟩ := pointKey_inj same
    have ⟨px, py⟩ := hp
    have ⟨qx, qy⟩ := hq
    exact Prod.ext (distinct p.1 (by omega) q.1 (by omega) sameX) (distinct p.2 (by omega) q.2 (by omega) sameY)

theorem march_ok (h : isScale scale = true) : march g scale = .ok (marchWith (pointKey scale) g) := by
  unfold march
  rw [h, Bool.true_or, if_pos rfl]

/-- The outline draws every segment once, and in loops unless it meets the border. At a scale at which the points
of the grid have different keys, no segment is lost in the map, and no two have the same end. If the steps are
bounded by twice the number of samples, no walk is stopped by the bound, the edges between consecutive points of
the subpaths are the segments, each once, every subpath is closed if the border is filled evenly, and the path
description can be written. -/
theorem outline_draws_segments (wide : 2 ≤ g.width) (high : 2 ≤ g.height) (legible : g.Legible scale) :
    ∃ m, march g scale = .ok m ∧
      m.toList = (segments g).map (fun s => (pointKey scale s.1, pointKey scale s.2)) ∧
      m.starts.length = (segments g).length ∧ (m.toList.map Prod.snd).Nodup ∧
      ∀ maxSteps, 2 * g.width * g.height ≤ maxSteps →
        (∀ s ∈ stitch m maxSteps, s.rest.length < maxSteps) ∧
        ((stitch m maxSteps).flatMap Subpath.edges).Perm m.toList ∧
        (g.HasEvenBorder → ∀ s ∈ stitch m maxSteps, s.closed = true) ∧
        ∃ commands, (stitch m maxSteps).mapM Subpath.commands = .ok commands ∧
          stitchText m maxSteps = .ok (" ".intercalate commands.flatten) := by
  have neat : (marchWith (pointKey scale) g).Neat := SegmentMap.neat_ofList _
  have all := legible.distinct.toList_marchWith
  have count := legible.distinct.length_starts
  have ends : ((marchWith (pointKey scale) g).toList.map Prod.snd).Nodup := by
    rw [all]
    exact legible.distinct.nodup_ends
  refine ⟨marchWith (pointKey scale) g, march_ok legible.isScale, all, count, ends, ?_⟩
  intro maxSteps enough
  have few := length_segments_lt wide high
  have bound : (marchWith (pointKey scale) g).starts.length ≤ maxSteps := by omega
  refine ⟨fun s hs => ?_, edges_perm neat bound,
    fun even => closed_of_looped neat bound (legible.distinct.looped even), ?_⟩
  · have short := (stitch_draws neat bound).short s hs
    omega
  · refine stitchText_ok (SegmentMap.holds_ofList fun s hs => ?_) maxSteps
    obtain ⟨ends, -, rfl⟩ := List.mem_map.mp hs
    exact ⟨isKey_pointKey _ _, isKey_pointKey _ _⟩

/-- A grid with an empty border, in which two samples that touch at a corner are filled. -/
def diagonal : Grid where
  width := 4
  height := 4
  filled x y := x == y && (x == 1 || x == 2)

theorem hasEmptyBorder_diagonal : diagonal.HasEmptyBorder := by
  have empty : ∀ x < 4, ∀ y < 4, x = 0 ∨ y = 0 ∨ x + 1 = 4 ∨ y + 1 = 4 → diagonal.filled x y = false := by
    decide
  intro x y ⟨hx, hy, on⟩
  exact empty x hx y hy on

/-- The eight segments around two samples that touch at a corner, traced for a picture of six by six. -/
theorem outline_draws_segments_diagonal :
    ∃ m, march diagonal (.real (3 / 2)) = .ok m ∧ m.starts.length = 8 ∧
      ((stitch m 32).flatMap Subpath.edges).Perm m.toList ∧ ∀ s ∈ stitch m 32, s.closed = true := by
  have legible : diagonal.Legible (.real (3 / 2)) :=
    Grid.legible_of_coordinates rfl le_rfl le_rfl (by decide) (by decide +kernel)
  obtain ⟨m, march, -, count, -, drawn⟩ := outline_draws_segments (by decide) (by decide) legible
  obtain ⟨-, once, closed, -⟩ := drawn 32 (by decide)
  exact ⟨m, march, count.trans (by decide), once, closed hasEmptyBorder_diagonal.even⟩

end VectorGraph.Contour
