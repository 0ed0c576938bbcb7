import VectorGraph.Params.Catalog
import VectorGraph.Proofs.Results

/-!
When parameters are refused.

Values of the wrong type are never refused: they count as missing. A reader fails only for an integer beyond the
doubles that stands where it looks for a number. `Refuses x P` says so of a reader `x`, with the condition `P` on what
is read; the rules for it follow the way in which readers are put together, and `Params.readAll_refuses` says it of
all parameters of a kind.
-/
namespace VectorGraph

/-- The reader fails if `P` holds and not otherwise, and always because a number is too large. -/
def Refuses {α : Type} (x : Except Failure α) (P : Prop) : Prop :=
  ∀ failure, x = .error failure ↔ failure = .tooLarge ∧ P

namespace Refuses

variable {α β : Type} {x : Except Failure α} {f : α → Except Failure β} {P Q : Prop}

theorem congr (h : Refuses x P) (same : P ↔ Q) : Refuses x Q :=
  fun failure => (h failure).trans (and_congr_right fun _ => same)

/-- What has a value is not refused. -/
theorem never (a : α) : Refuses (.ok a) False :=
  fun _ => ⟨nofun, fun h => h.2.elim⟩

theorem always : Refuses (.error .tooLarge : Except Failure α) True :=
  fun _ => ⟨fun h => ⟨(Except.error.inj h).symm, trivial⟩, fun h => h.1 ▸ rfl⟩

/-- Where the condition does not hold there is a value. -/
theorem sure (h : Refuses x P) (sound : ¬ P) : ∃ a, x = .ok a := by
  cases x with
  | error failure => exact absurd ((h failure).mp rfl).2 sound
  | ok a => exact ⟨a, rfl⟩

/-- One reader after another: the second is asked only if the first is not refused. -/
theorem bind {R : α → Prop} (h : Refuses x P) (next : ∀ a, x = .ok a → Refuses (f a) (R a)) :
    Refuses (x >>= f) (P ∨ ∃ a, x = .ok a ∧ R a) := by
  intro failure
  cases x with
  | error cause =>
    obtain ⟨rfl, holds⟩ := (h cause).mp rfl
    constructor
    · intro failed
      exact ⟨(Except.error.inj failed).symm, .inl holds⟩
    · rintro ⟨rfl, -⟩
      rfl
  | ok a =>
    have sound : ¬ P := fun holds => nomatch (h .tooLarge).mpr ⟨rfl, holds⟩
    have same : (P ∨ ∃ b, Except.ok a = (.ok b : Except Failure α) ∧ R b) ↔ R a := by
      simp [sound]
    rw [same]
    exact next a rfl failure

/-- The second reader's condition does not depend on what the first has read. -/
theorem andThen (h : Refuses x P) (next : ∀ a, x = .ok a → Refuses (f a) Q) : Refuses (x >>= f) (P ∨ Q) := by
  refine (h.bind next).congr ?_
  constructor
  · rintro (holds | ⟨-, -, holds⟩)
    · exact .inl holds
    · exact .inr holds
  · rintro (holds | holds)
    · exact .inl holds
    · cases got : x with
      | error cause => exact .inl ((h cause).mp got).2
      | ok a => exact .inr ⟨a, rfl, holds⟩

theorem map (h : Refuses x P) (g : α → β) : Refuses (x >>= fun a => .ok (g a)) P :=
  (h.andThen fun a _ => never (g a)).congr (or_iff_left id)

/-- A list is refused if one of its entries is. -/
theorem mapM {l : List α} {R : α → Prop} (h : ∀ a ∈ l, Refuses (f a) (R a)) :
    Refuses (l.mapM f) (∃ a ∈ l, R a) := by
  induction l with
  | nil => exact (never []).congr (by simp)
  | cons a l ih =>
    rw [List.mapM_cons]
    have rest := ih fun b hb => h b (List.mem_cons_of_mem a hb)
    exact ((h a List.mem_cons_self).andThen fun b _ => rest.map (b :: ·)).congr (by simp)

end Refuses

namespace Json

/-- Whether a value is an integer that no double can hold. -/
def isBeyond : Json → Bool
  | .whole n => (doubleOfInt n).isNone
  | _ => false

/-- Whether a value is a finite number. -/
def isFinite (value : Json) : Bool := value.finite? matches .ok (some _)

/-- What stands under a key; null if nothing does. -/
def under (value : Json) (key : String) : Json := (value.get? key).getD .null

/-- Whether a pair of coordinates is refused: the second is looked at only after a finite first one. -/
def isPointBeyond (entry : Json) : Bool :=
  (entry.under "x").isBeyond || (entry.under "x").isFinite && (entry.under "y").isBeyond

/-- Whether a handle is refused: both coordinates are looked at. -/
def isHandleBeyond (handle : Json) : Bool := (handle.under "x").isBeyond || (handle.under "y").isBeyond

/-- Whether an anchor is refused: its handles are looked at only if it has a point. -/
def isAnchorBeyond (entry : Json) : Bool :=
  entry.isPointBeyond || (entry.under "x").isFinite && (entry.under "y").isFinite &&
    ((entry.under "handleIn").isHandleBeyond || (entry.under "handleOut").isHandleBeyond)

theorem finite?_refuses (value : Json) : Refuses value.finite? value.isBeyond := by
  cases value with
  | whole n =>
    cases held : doubleOfInt n with
    | none =>
      have failed : Json.finite? (.whole n) = .error .tooLarge := by
        simp only [finite?, scalar?, Outline.isFinite, Scalar.toFloat?, held]
        rfl
      rw [failed]
      exact Refuses.always.congr (by simp [isBeyond, held])
    | some x =>
      have read : Json.finite? (.whole n) = .ok (if isFiniteDouble x then some (.whole n) else none) := by
        simp only [finite?, scalar?, Outline.isFinite, Scalar.toFloat?, held]
        rfl
      rw [read]
      exact (Refuses.never _).congr (by simp [isBeyond, held])
  | _ => exact (Refuses.never _).congr (by simp [isBeyond])

/-- A finite number is what the reader yields one for. -/
theorem isFinite_iff {value : Json} : value.isFinite = true ↔ ∃ a, value.finite? = .ok (some a) := by
  unfold isFinite
  split <;> simp_all

end Json

open Json

/-! ## Points -/

namespace Outline

theorem coordinates?_refuses (entry : Json) : Refuses (coordinates? entry) entry.isPointBeyond := by
  unfold coordinates?
  refine ((finite?_refuses (entry.under "x")).andThen
    (Q := (entry.under "x").isFinite = true ∧ (entry.under "y").isBeyond = true) fun x read => ?_).congr
    (by simp [isPointBeyond])
  cases x with
  | none => exact (Refuses.never none).congr (by simp [isFinite_iff, read])
  | some x => exact ((finite?_refuses (entry.under "y")).map _).congr (by simp [isFinite_iff, read])

theorem coordinates?_eq_some_iff {entry : Json} {x y : Scalar} : coordinates? entry = .ok (some (x, y)) ↔
    (entry.under "x").finite? = .ok (some x) ∧ (entry.under "y").finite? = .ok (some y) := by
  constructor
  · intro read
    obtain ⟨first, readX, rest⟩ := bind_eq_ok.mp read
    cases first with
    | none => cases Except.ok.inj rest
    | some x' =>
      obtain ⟨second, readY, same⟩ := bind_eq_ok.mp rest
      cases second with
      | none => cases Except.ok.inj same
      | some y' =>
        cases Except.ok.inj same
        exact ⟨readX, readY⟩
  · rintro ⟨readX, readY⟩
    refine bind_eq_ok.mpr ⟨some x, readX, bind_eq_ok.mpr ⟨some y, readY, rfl⟩⟩

section Side

variable {side : Int} (held : doubleOfInt side ≠ none)

include held

/-- A number that was read can be scaled. -/
theorem check_scaled {value : Json} {a : Scalar} (read : value.finite? = .ok (some a)) :
    (a * .whole side).check = .ok (a * .whole side) := by
  cases value with
  | whole n =>
    obtain ⟨finite, -, same⟩ := bind_eq_ok.mp read
    split at same <;> cases Except.ok.inj same
    rfl
  | real x =>
    obtain ⟨finite, -, same⟩ := bind_eq_ok.mp read
    split at same <;> cases Except.ok.inj same
    obtain ⟨y, hy⟩ := Option.ne_none_iff_exists'.mp held
    have product : Scalar.real x * .whole side = .real (x * y) := by
      show Scalar.combine _ _ _ _ = _
      simp only [Scalar.combine, Scalar.toFloat?, hy]
    rw [product]
    rfl
  | _ => cases Except.ok.inj read

theorem readSplinePoint_refuses (entry : Json) :
    Refuses (readSplinePoint (.whole side) entry) entry.isPointBeyond := by
  refine ((coordinates?_refuses entry).andThen (Q := False) fun found read => ?_).congr (or_iff_left id)
  cases found with
  | none => exact .never none
  | some point =>
    obtain ⟨x, y⟩ := point
    obtain ⟨readX, readY⟩ := coordinates?_eq_some_iff.mp read
    show Refuses ((x * .whole side).check >>= fun x => (y * .whole side).check >>= fun y =>
      .ok (some (⟨x, y, roleOf entry⟩ : SplinePoint Scalar))) False
    rw [check_scaled held readX, check_scaled held readY]
    exact .never _

/-- The points of a spline are refused if and only if the coordinates of one of them are. -/
theorem readSplinePoints_refuses (raw : Json) :
    Refuses (readSplinePoints raw (.whole side)) (∃ entry ∈ raw.items, entry.isPointBeyond = true) :=
  (Refuses.mapM fun entry _ => readSplinePoint_refuses held entry).map _

theorem readHandle_refuses {px py : Scalar} (hx : px.check = .ok px) (hy : py.check = .ok py) (handle : Json) :
    Refuses (readHandle (.whole side) px py handle) handle.isHandleBeyond := by
  have checked : ∀ {value : Json} {p : Scalar} {found : Option Scalar}, p.check = .ok p → value.finite? = .ok found →
      ((found.map (· * .whole side)).getD p).check = .ok ((found.map (· * .whole side)).getD p) := by
    intro value p found hp read
    cases found with
    | none => exact hp
    | some a => exact check_scaled held read
  refine ((finite?_refuses (handle.under "x")).andThen fun x readX =>
    (finite?_refuses (handle.under "y")).andThen (Q := False) fun y readY => ?_).congr (by simp [isHandleBeyond])
  show Refuses (((x.map (· * .whole side)).getD px).check >>= fun hx =>
    ((y.map (· * .whole side)).getD py).check >>= fun hy => .ok (hx, hy)) False
  rw [checked hx readX, checked hy readY]
  exact .never _

theorem readAnchor_refuses (entry : Json) : Refuses (readAnchor (.whole side) entry) entry.isAnchorBeyond := by
  unfold readAnchor
  refine ((coordinates?_refuses entry).andThen
    (Q := ((entry.under "x").isFinite = true ∧ (entry.under "y").isFinite = true) ∧
      ((entry.under "handleIn").isHandleBeyond = true ∨ (entry.under "handleOut").isHandleBeyond = true))
    fun found read => ?_).congr (by simp [isAnchorBeyond])
  cases found with
  | none =>
    refine (Refuses.never none).congr ⟨False.elim, fun both => ?_⟩
    obtain ⟨⟨hx, hy⟩, -⟩ := both
    obtain ⟨x, readX⟩ := isFinite_iff.mp hx
    obtain ⟨y, readY⟩ := isFinite_iff.mp hy
    cases read.symm.trans (coordinates?_eq_some_iff.mpr ⟨readX, readY⟩)
  | some point =>
    obtain ⟨x, y⟩ := point
    obtain ⟨readX, readY⟩ := coordinates?_eq_some_iff.mp read
    have px := check_scaled held readX
    have py := check_scaled held readY
    show Refuses ((x * .whole side).check >>= _) _
    rw [px]
    show Refuses ((y * .whole side).check >>= _) _
    rw [py]
    exact ((readHandle_refuses held px py (entry.under "handleIn")).andThen fun before _ =>
      (readHandle_refuses held px py (entry.under "handleOut")).map _).congr (by simp [isFinite_iff, readX, readY])

/-- The anchors of a free curve are refused if and only if the coordinates or the handles of one of them are. -/
theorem readAnchors_refuses (raw : Json) :
    Refuses (readAnchors raw (.whole side)) (∃ entry ∈ raw.items, entry.isAnchorBeyond = true) :=
  (Refuses.mapM fun entry _ => readAnchor_refuses held entry).map _

end Side

end Outline

namespace FieldType

/-- Whether a value is refused by a parameter of a type. -/
def refuses : FieldType → Json → Bool
  | .whole, raw => raw.isBeyond
  | .real, raw => raw.isBeyond
  | .point, raw => raw.isPointBeyond
  | _, _ => false

theorem accept?_refuses (t : FieldType) (raw : Json) : Refuses (t.accept? raw) (t.refuses raw) := by
  cases t with
  | whole => exact (finite?_refuses raw).map _
  | real => exact (finite?_refuses raw).map _
  | point => exact (Outline.coordinates?_refuses raw).map _
  | flag | text | items => cases raw <;> exact (Refuses.never _).congr (by simp [refuses])

end FieldType

/-- Whether a parameter is refused. -/
def Field.refuses {t : FieldType} (f : Field t) (params : Fields) : Bool := t.refuses (rawValue params f.key)

def OptionalField.refuses {t : FieldType} (f : OptionalField t) (params : Fields) : Bool :=
  t.refuses (rawValue params f.key)

theorem Field.read_refuses {t : FieldType} (f : Field t) (params : Fields) :
    Refuses (f.read params) (f.refuses params) :=
  (t.accept?_refuses _).map _

theorem OptionalField.read_refuses {t : FieldType} (f : OptionalField t) (params : Fields) :
    Refuses (f.read params) (f.refuses params) :=
  (t.accept?_refuses _).map _

namespace Slot

def refuses : Slot → Fields → Bool
  | .needed f, params => f.refuses params
  | .optional f, params => f.refuses params

theorem value_refuses (s : Slot) (params : Fields) : Refuses (s.value params) (s.refuses params) := by
  cases s with
  | needed f => exact (f.read_refuses params).map _
  | optional f => exact (f.read_refuses params).map _

end Slot

namespace Params

/-- Whether one of the parameters of a kind is refused. -/
def refuses (kind : Kind) (params : Fields) : Bool := (slots kind).any (·.refuses params)

/-- The parameters of a kind are refused if and only if an integer beyond the doubles stands where one of them is a
number or a coordinate. -/
theorem readAll_refuses (kind : Kind) (params : Fields) : Refuses (readAll kind params) (refuses kind params) := by
  have each : Refuses ((slots kind).mapM fun s => s.value params >>= fun value => .ok (s.name, value))
      (∃ s ∈ slots kind, s.refuses params = true) :=
    Refuses.mapM fun s _ => (s.value_refuses params).map _
  exact each.congr (by simp [refuses])

end Params

end VectorGraph
