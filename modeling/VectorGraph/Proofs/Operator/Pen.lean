import VectorGraph.Operator.Shapes
import VectorGraph.Proofs.Outline.Chain

/-!
Malformed entries make no difference to the pen.

An entry of a document without two finite coordinates is no anchor (`readAnchor_malformed`), and the pen reads the
same anchors whether it is there or not (`readAnchors_filter`). The outline is then drawn as one chain through those
of the anchors that are valid.
-/
namespace VectorGraph

/-! ## Reading what is left over -/

section Filter

variable {ε α β : Type} {f : α → Except ε (Option β)} {p : α → Bool}

/-- What a list gives is the same without entries that give nothing. -/
theorem mapM_filter (l : List α) (nothing : ∀ a ∈ l, p a = false → f a = .ok none) :
    ((l.filter p).mapM f).map (·.filterMap id) = (l.mapM f).map (·.filterMap id) := by
  induction l with
  | nil => rfl
  | cons a rest ih =>
    have later := ih fun b there => nothing b (List.mem_cons_of_mem a there)
    cases kept : p a with
    | false =>
      have none := nothing a List.mem_cons_self kept
      rw [List.filter_cons_of_neg (by simp [kept]), later, List.mapM_cons, none]
      cases rest.mapM f <;> rfl
    | true =>
      rw [List.filter_cons_of_pos kept, List.mapM_cons, List.mapM_cons]
      cases f a with
      | error failure => rfl
      | ok b =>
        -- both sides go on with the same entry in front of the others
        have front : ∀ x : Except ε (List (Option β)),
            (do let bs ← x; return b :: bs : Except ε (List (Option β))).map (·.filterMap id) =
              (x.map (·.filterMap id)).map fun found => b.toList ++ found := fun x => by
          cases x with
          | error failure => rfl
          | ok bs => cases b <;> rfl
        exact (front _).trans ((congrArg _ later).trans (front _).symm)

end Filter

namespace Outline

/-- Whether an entry has two finite coordinates. -/
def isPlaced (entry : Json) : Bool := entry.point?.isSome

/-- An entry without two finite coordinates is no anchor. -/
theorem readAnchor_malformed {entry : Json} (held : entry.isHeld = true) (malformed : isPlaced entry = false)
    (scale : Scalar) : readAnchor scale entry = .ok none := by
  have nowhere : entry.point? = none := Option.not_isSome_iff_eq_none.mp (by simpa [isPlaced] using malformed)
  simp only [readAnchor, Json.coordinates?_eq held, nowhere]
  rfl

theorem readAnchors_filter {raw : List Json} (held : ∀ entry ∈ raw, entry.isHeld = true) (scale : Scalar) :
    readAnchors (.list (raw.filter isPlaced)) scale = readAnchors (.list raw) scale :=
  mapM_filter raw fun entry there malformed => readAnchor_malformed (held entry there) malformed scale

end Outline

namespace Operator

open Outline

theorem read_points {params : Fields} {raw : List Json} (given : rawValue params "points" = .list raw) :
    Params.Pen.points.read params = .ok raw := by
  unfold Field.read
  change (FieldType.accept? .items (rawValue params "points") >>= _) = _
  rw [given]
  rfl

/-- The pen draws the same whatever malformed entries stand between the others. -/
theorem pen_congr {params params' : Fields} {raw raw' : List Json} (given : rawValue params "points" = .list raw)
    (given' : rawValue params' "points" = .list raw') (held : ∀ entry ∈ raw, entry.isHeld = true)
    (held' : ∀ entry ∈ raw', entry.isHeld = true) (same : raw.filter isPlaced = raw'.filter isPlaced) (c : Context)
    (inputs : Inputs) : pen c params inputs = pen c params' inputs := by
  have anchors : readAnchors (.list raw) (.whole c.side) = readAnchors (.list raw') (.whole c.side) := by
    rw [← readAnchors_filter held, same, readAnchors_filter held']
  unfold pen
  rw [read_points given, read_points given']
  show (liftM (readAnchors (.list raw) (.whole c.side)) >>= fun found => _ : Drawing Work) =
    (liftM (readAnchors (.list raw') (.whole c.side)) >>= fun found => _)
  rw [anchors]

/-- Malformed points are passed over wherever they stand, in an outline through anchors and in what the pen draws. -/
theorem malformed_points_passed_over :
    (∀ (anchors : List (Option Anchor)) (closed : Bool), (∀ a, some a ∈ anchors → a.Held) →
      ∃ outline curves, Chains anchors closed outline curves) ∧
    ∀ (c : Context) (inputs : Inputs) (params params' : Fields) (raw raw' : List Json),
      rawValue params "points" = .list raw → rawValue params' "points" = .list raw' →
      (∀ entry ∈ raw, entry.isHeld = true) → (∀ entry ∈ raw', entry.isHeld = true) →
      raw.filter isPlaced = raw'.filter isPlaced → pen c params inputs = pen c params' inputs :=
  ⟨fun _ closed held => bezier_chains held closed,
    fun c inputs _ _ _ _ given given' held held' same => pen_congr given given' held held' same c inputs⟩

/-- An arrow: a missing anchor, one without an ordinate, and a handle without an abscissa stand between the others. -/
def arrow : List (Option Anchor) :=
  [none, some { spot := ⟨some (.whole 0), some (.whole 0)⟩, handleOut := some ⟨none, some (.whole 4)⟩ },
    some { spot := ⟨some (.whole 2), none⟩ },
    some { spot := ⟨some (.whole 8), some (.whole 0)⟩, handleIn := some ⟨some (.whole 8), some (.whole 4)⟩ }]

theorem arrow_held (a : Anchor) (there : some a ∈ arrow) : a.Held := by
  have all : ∀ anchor ∈ arrow, ∀ a ∈ anchor, Anchor.Held a := by decide +kernel
  exact all (some a) there a rfl

def arrowEntries : List Json :=
  [.object [("x", .whole 0), ("y", .whole 0)], .object [("x", .whole 1), ("y", .whole 0)]]

def brokenEntries : List Json :=
  [.null, .object [("x", .whole 0), ("y", .whole 0)], .object [("x", .whole 2), ("y", .text "2")],
    .object [("x", .whole 1), ("y", .whole 0)], .list []]

theorem arrow_passes_over : (∃ outline curves, Chains arrow true outline curves) ∧
    pen ⟨{}, .pixels 8, false, "n"⟩ [("points", .list brokenEntries)] [] =
      pen ⟨{}, .pixels 8, false, "n"⟩ [("points", .list arrowEntries)] [] := by
  have held : ∀ entry ∈ arrowEntries, entry.isHeld = true := by decide +kernel
  have held' : ∀ entry ∈ brokenEntries, entry.isHeld = true := by decide +kernel
  have same : brokenEntries.filter isPlaced = arrowEntries.filter isPlaced := by decide +kernel
  exact ⟨malformed_points_passed_over.1 arrow true arrow_held,
    malformed_points_passed_over.2 _ [] _ _ brokenEntries arrowEntries rfl rfl held' held same⟩

end Operator

end VectorGraph
