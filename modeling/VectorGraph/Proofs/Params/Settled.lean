import VectorGraph.Proofs.Json.Held
import VectorGraph.Proofs.Results

/-!
What parameters come to.

A parameter reads the value under its own key and nothing else, and what it makes of the value has the type of the
parameter and lies within its bounds (`Slot.settle_holds`). Read again, it is taken as it is (`Slot.value_settled`):
a truncated integer, a rounded double and a number moved to its bound are such that nothing is left to be done. The
parameters of all kinds are alike in this as their bounds and fallbacks fit together (`Params.isFit`).
-/
namespace VectorGraph

namespace FieldType

/-! ## Bounds -/

section Bounds

variable {α : Type} [LT α] [DecidableLT α] {low high : Option α}

theorem atLeast_cases (low : Option α) (v : α) : atLeast low v = v ∨ atLeast low v ∈ low := by
  cases low with
  | none => exact .inl rfl
  | some l =>
    by_cases above : l < v
    · simp [atLeast, above]
    · simp [atLeast, above]

theorem atMost_cases (high : Option α) (v : α) : atMost high v = v ∨ atMost high v ∈ high := by
  cases high with
  | none => exact .inl rfl
  | some h =>
    by_cases below : v < h
    · simp [atMost, below]
    · simp [atMost, below]

/-- What holds of a value and of its bounds holds of the value within the bounds. -/
theorem atMost_atLeast_of {P : α → Prop} {v : α} (ofLow : ∀ l ∈ low, P l) (ofHigh : ∀ h ∈ high, P h) (ofValue : P v) :
    P (atMost high (atLeast low v)) := by
  rcases atMost_cases high (atLeast low v) with same | bound
  · rw [same]
    rcases atLeast_cases low v with same | bound
    · rwa [same]
    · exact ofLow _ bound
  · exact ofHigh _ bound

/-- A value that has been brought into its bounds is not moved again. -/
theorem atMost_atLeast_self (ordered : ∀ l ∈ low, ∀ h ∈ high, l < h) (v : α) :
    atMost high (atLeast low (atMost high (atLeast low v))) = atMost high (atLeast low v) := by
  have up : ∀ w : α, atLeast low (atLeast low w) = atLeast low w := fun w => by
    cases low with
    | none => rfl
    | some l => by_cases above : l < w <;> simp [atLeast, above]
  have down : ∀ w : α, atMost high (atMost high w) = atMost high w := fun w => by
    cases high with
    | none => rfl
    | some h => by_cases below : w < h <;> simp [atMost, below]
  rcases atMost_cases high (atLeast low v) with same | bound
  · rw [same, up, same]
  · -- the upper bound lies above the lower one, which leaves it where it is
    have kept : atLeast low (atMost high (atLeast low v)) = atMost high (atLeast low v) := by
      cases low with
      | none => rfl
      | some l => exact if_pos (ordered l rfl _ bound)
    rw [kept, down]

section Order

variable [LE α]

theorem le_atLeast (weak : ∀ a b : α, a < b → a ≤ b) {l : α} (refl : l ≤ l) (v : α) : l ≤ atLeast (some l) v := by
  by_cases above : l < v
  · simpa [atLeast, above] using weak l v above
  · simpa [atLeast, above] using refl

theorem atMost_le (weak : ∀ a b : α, a < b → a ≤ b) {h : α} (refl : h ≤ h) (v : α) : atMost (some h) v ≤ h := by
  by_cases below : v < h
  · simpa [atMost, below] using weak v h below
  · simpa [atMost, below] using refl

/-- A value that is brought into its bounds lies within them. -/
theorem atMost_atLeast_within (weak : ∀ a b : α, a < b → a ≤ b) (reflLow : ∀ l ∈ low, l ≤ l)
    (reflHigh : ∀ h ∈ high, h ≤ h) (ordered : ∀ l ∈ low, ∀ h ∈ high, l < h) (v : α) :
    (∀ l ∈ low, l ≤ atMost high (atLeast low v)) ∧ ∀ h ∈ high, atMost high (atLeast low v) ≤ h := by
  refine ⟨fun l isLow => ?_, fun h isHigh => ?_⟩
  · obtain rfl := isLow
    rcases atMost_cases high (atLeast (some l) v) with same | bound
    · rw [same]
      exact le_atLeast weak (reflLow l rfl) v
    · exact weak _ _ (ordered l rfl _ bound)
  · obtain rfl := isHigh
    exact atMost_le weak (reflHigh h rfl) _

end Order

end Bounds

/-! ## Types -/

/-- Whether a value is one that a document can give: doubles are finite, a double can hold an integer, and a text is not
empty. -/
def isSound : (t : FieldType) → t.Value → Bool
  | .flag, _ => true
  | .whole, n => (doubleOfInt n).isSome
  | .real, x => isFiniteDouble x
  | .text, s => s != ""
  | .items, _ => true
  | .point, p => isFiniteDouble p.x && isFiniteDouble p.y

/-- Whether a value lies within bounds. Only numbers have any. -/
def Within : (t : FieldType) → Option t.Value → Option t.Value → t.Value → Prop
  | .whole, low, high, n => (∀ l ∈ low, l ≤ n) ∧ ∀ h ∈ high, n ≤ h
  | .real, low, high, x => (∀ l ∈ low, l ≤ x) ∧ ∀ h ∈ high, x ≤ h
  | _, low, high, _ => low = none ∧ high = none

/-- Whether bounds are sound and apart from each other. -/
def areBounds : (t : FieldType) → Option t.Value → Option t.Value → Bool
  | .whole, low, high =>
    low.all (isSound .whole) && high.all (isSound .whole) && low.all fun l => high.all fun h => decide (l < h)
  | .real, low, high =>
    low.all (isSound .real) && high.all (isSound .real) && low.all fun l => high.all fun h => decide (l < h)
  | _, low, high => low.isNone && high.isNone

/-- The value of a type that a document value stands for, if no integer is beyond the doubles. -/
def accepted? : (t : FieldType) → Json → Option t.Value
  | .flag, .bool b => some b
  | .whole, raw => raw.number?.map truncated
  | .real, raw => raw.number?.map asDouble
  | .text, .text s => if s = "" then none else some s
  | .items, .list entries => some entries
  | .point, raw => raw.point?.map fun (x, y) => ⟨asDouble x, asDouble y⟩
  | _, _ => none

section Types

variable {raw : Json} {t : FieldType} {v : t.Value} {low high : Option t.Value}

theorem accept?_eq (held : raw.isHeld = true) (t : FieldType) : t.accept? raw = .ok (t.accepted? raw) := by
  cases t with
  | flag | text | items => cases raw <;> rfl
  | whole | real =>
    simp only [accept?, Json.finite?_eq held]
    rfl
  | point =>
    simp only [accept?, Json.coordinates?_eq held]
    rfl

/-- A number in a document is finite as a double. -/
theorem isFiniteDouble_asDouble (held : raw.isHeld = true) {a : Scalar} (number : raw.number? = some a) :
    isFiniteDouble (asDouble a) = true := by
  cases raw with
  | whole n =>
    obtain rfl := Option.some.inj number
    obtain ⟨x, double⟩ := Option.isSome_iff_exists.mp held
    rw [isFiniteDouble_iff, asDouble, Scalar.toFloat?, double]
    exact exists_finite_of_doubleOfInt double
  | real x =>
    by_cases finite : isFiniteDouble x = true
    · rw [Json.number?, if_pos finite] at number
      obtain rfl := Option.some.inj number
      exact finite
    · rw [Json.number?, if_neg finite] at number
      cases number
  | _ => cases number

/-- A number in a document is an integer that a double can hold once its fraction is dropped. -/
theorem isSome_doubleOfInt_truncated (held : raw.isHeld = true) {a : Scalar} (number : raw.number? = some a) :
    (doubleOfInt (truncated a)).isSome = true := by
  cases raw with
  | whole n =>
    obtain rfl := Option.some.inj number
    exact held
  | real x =>
    by_cases finite : isFiniteDouble x = true
    · rw [Json.number?, if_pos finite] at number
      obtain rfl := Option.some.inj number
      obtain ⟨b, view⟩ := isFiniteDouble_iff.mp finite
      rw [Option.isSome_iff_ne_none, truncated, view]
      exact doubleOfInt_truncate view
    · rw [Json.number?, if_neg finite] at number
      cases number
  | _ => cases number

/-- What is taken from a document is sound. -/
theorem isSound_of_accepted? (held : raw.isHeld = true) (found : t.accepted? raw = some v) : t.isSound v = true := by
  cases t with
  | flag | items => rfl
  | text =>
    cases raw with
    | text s =>
      by_cases empty : s = ""
      · simp [accepted?, empty] at found
      · rw [accepted?, if_neg empty] at found
        obtain rfl := Option.some.inj found
        simpa [isSound] using empty
    | _ => cases found
  | whole =>
    obtain ⟨a, number, rfl⟩ := Option.map_eq_some_iff.mp found
    exact isSome_doubleOfInt_truncated held number
  | real =>
    obtain ⟨a, number, rfl⟩ := Option.map_eq_some_iff.mp found
    exact isFiniteDouble_asDouble held number
  | point =>
    obtain ⟨⟨x, y⟩, place, rfl⟩ := Option.map_eq_some_iff.mp found
    have numbers : (raw.under "x").number? = some x ∧ (raw.under "y").number? = some y := by
      unfold Json.point? at place
      split at place
      · next x' y' atX atY =>
        obtain ⟨rfl, rfl⟩ := Prod.mk.inj (Option.some.inj place)
        exact ⟨atX, atY⟩
      · cases place
    have finiteX := isFiniteDouble_asDouble (Json.isHeld_under held "x") numbers.1
    have finiteY := isFiniteDouble_asDouble (Json.isHeld_under held "y") numbers.2
    simp only [isSound, finiteX, finiteY, Bool.and_self]

/-- A sound value is taken as it is. -/
theorem accepted?_toJson (sound : t.isSound v = true) : t.accepted? (t.toJson v) = some v := by
  cases t with
  | flag | items => rfl
  | text =>
    have given : v ≠ "" := by simpa [isSound] using sound
    simp only [toJson, accepted?, if_neg given]
  | whole => rfl
  | real =>
    have number : (Json.real v).number? = some (.real v) := if_pos sound
    simp only [toJson, accepted?, number]
    rfl
  | point =>
    obtain ⟨x, y⟩ := v
    simp only [isSound, Bool.and_eq_true] at sound
    have place : (Json.object [("x", .real x), ("y", .real y)]).point? = some (.real x, .real y) := by
      simp [Json.point?, Json.under, Json.get?, Json.field?, Json.number?, sound.1, sound.2]
    simp only [toJson, accepted?, place]
    rfl

theorem accept?_toJson (sound : t.isSound v = true) : t.accept? (t.toJson v) = .ok (some v) := by
  cases t with
  | items => rfl
  | whole =>
    have held : (Json.whole v).isHeld = true := sound
    rw [toJson, accept?_eq held]
    rfl
  | flag | real | text | point => rw [accept?_eq rfl, accepted?_toJson sound]

/-- The bounds of numbers are sound, and the lower one lies below the upper one. -/
theorem areBounds_iff {sound : α → Bool} [LT α] [DecidableLT α] {low high : Option α} :
    (low.all sound && high.all sound && low.all fun l => high.all fun h => decide (l < h)) = true ↔
      (∀ l ∈ low, sound l = true) ∧ (∀ h ∈ high, sound h = true) ∧ ∀ l ∈ low, ∀ h ∈ high, l < h := by
  simp [Option.all_eq_true, and_assoc]

theorem isSound_clamp (bounds : t.areBounds low high = true) (sound : t.isSound v = true) :
    t.isSound (t.clamp low high v) = true := by
  cases t with
  | flag | text | items | point => exact sound
  | whole | real =>
    obtain ⟨ofLow, ofHigh, -⟩ := areBounds_iff.mp bounds
    exact atMost_atLeast_of ofLow ofHigh sound

theorem clamp_clamp (bounds : t.areBounds low high = true) (v : t.Value) :
    t.clamp low high (t.clamp low high v) = t.clamp low high v := by
  cases t with
  | flag | text | items | point => rfl
  | whole | real =>
    obtain ⟨-, -, ordered⟩ := areBounds_iff.mp bounds
    exact atMost_atLeast_self ordered v

theorem real_le_self {x : Float} (sound : isSound .real x = true) : x ≤ x := by
  obtain ⟨b, view⟩ := isFiniteDouble_iff.mp sound
  exact (FloatView.le_iff_value_le view view).mpr le_rfl

theorem within_clamp (bounds : t.areBounds low high = true) (v : t.Value) :
    t.Within low high (t.clamp low high v) := by
  cases t with
  | flag | text | items | point => simpa [areBounds, Within] using bounds
  | whole =>
    obtain ⟨-, -, ordered⟩ := areBounds_iff.mp bounds
    exact atMost_atLeast_within (fun _ _ => Int.le_of_lt) (fun l _ => Int.le_refl l) (fun h _ => Int.le_refl h)
      ordered v
  | real =>
    obtain ⟨ofLow, ofHigh, ordered⟩ := areBounds_iff.mp bounds
    exact atMost_atLeast_within (fun _ _ => FloatView.le_of_lt) (fun l isLow => real_le_self (ofLow l isLow))
      (fun h isHigh => real_le_self (ofHigh h isHigh)) ordered v

end Types

end FieldType

/-! ## Parameters -/

section Reading

variable {t : FieldType} {params : Fields} {v : t.Value}

theorem Field.read_settled (f : Field t) (bounds : t.areBounds f.low f.high = true) (sound : t.isSound v = true)
    (given : rawValue params f.key = t.toJson (t.clamp f.low f.high v)) :
    f.read params = .ok (t.clamp f.low f.high v) := by
  have taken := FieldType.accept?_toJson (FieldType.isSound_clamp bounds sound)
  unfold Field.read
  rw [given, taken]
  exact congrArg Except.ok (FieldType.clamp_clamp bounds v)

/-- A fallback that is read gives the fallback, be it taken or not. -/
theorem Field.read_fallback (f : Field t) (ready : (t.isSound f.fallback || t == .text) = true)
    (given : rawValue params f.key = t.toJson f.fallback) : f.read params = .ok (t.clamp f.low f.high f.fallback) := by
  have taken : ∃ found, t.accept? (t.toJson f.fallback) = .ok found ∧ found.getD f.fallback = f.fallback := by
    cases sound : t.isSound f.fallback with
    | true => exact ⟨some f.fallback, FieldType.accept?_toJson sound, rfl⟩
    | false =>
      rw [sound, Bool.false_or, beq_iff_eq] at ready
      subst ready
      have empty : f.fallback = "" := by simpa [FieldType.isSound] using sound
      exact ⟨none, by simp [FieldType.accept?, FieldType.toJson, empty], rfl⟩
  obtain ⟨found, accepted, same⟩ := taken
  unfold Field.read
  rw [given, accepted]
  exact congrArg (Except.ok <| t.clamp f.low f.high ·) same

theorem OptionalField.read_settled (f : OptionalField t) (bounds : t.areBounds f.low f.high = true)
    (sound : t.isSound v = true) (given : rawValue params f.key = t.toJson (t.clamp f.low f.high v)) :
    f.read params = .ok (some (t.clamp f.low f.high v)) := by
  have taken := FieldType.accept?_toJson (FieldType.isSound_clamp bounds sound)
  unfold OptionalField.read
  rw [given, taken]
  exact congrArg (Except.ok <| some ·) (FieldType.clamp_clamp bounds v)

theorem OptionalField.read_nothing (f : OptionalField t) (given : rawValue params f.key = .null) :
    f.read params = .ok none := by
  unfold OptionalField.read
  rw [given]
  cases t <;> rfl

end Reading

namespace Slot

/-- The value of a parameter for which nothing is given. -/
def fallback : Slot → Json
  | .needed (t := t) f => t.toJson f.fallback
  | .optional _ => .null

/-- What a parameter makes of the value under its key. -/
def settle : Slot → Json → Json
  | .needed (t := t) f, raw => t.toJson (t.clamp f.low f.high ((t.accepted? raw).getD f.fallback))
  | .optional (t := t) f, raw => ((t.accepted? raw).map fun v => t.toJson (t.clamp f.low f.high v)).getD .null

/-- Whether a value is one of the type of a parameter and within its bounds, or none where there may be none. -/
def Holds : Slot → Json → Prop
  | .needed (t := t) f, value => ∃ v, value = t.toJson v ∧ t.Within f.low f.high v
  | .optional (t := t) f, value => value = .null ∨ ∃ v, value = t.toJson v ∧ t.Within f.low f.high v

/-- Whether a value needs no change: it is sound, and its bounds do not move it. -/
def Keeps : Slot → Json → Prop
  | .needed (t := t) f, raw => ∃ v, raw = t.toJson v ∧ t.isSound v = true ∧ t.clamp f.low f.high v = v
  | .optional (t := t) f, raw => ∃ v, raw = t.toJson v ∧ t.isSound v = true ∧ t.clamp f.low f.high v = v

/-- Whether bounds and fallback of a parameter go together: the fallback is not moved, and is taken as it is or is an
empty text. -/
def isFit : Slot → Bool
  | .needed (t := t) f =>
    t.areBounds f.low f.high && (t.isSound f.fallback || t == .text) &&
      t.toJson (t.clamp f.low f.high f.fallback) == t.toJson f.fallback
  | .optional (t := t) f => t.areBounds f.low f.high

variable {s : Slot} {params : Fields} {raw : Json}

/-- A parameter depends on the value under its key. -/
theorem value_eq (held : (rawValue params s.key).isHeld = true) :
    s.value params = .ok (s.settle (rawValue params s.key)) := by
  cases s with
  | needed f =>
    have read := FieldType.accept?_eq held
    simp only [key] at read
    simp only [value, Field.read, read]
    rfl
  | optional f =>
    have read := FieldType.accept?_eq held
    simp only [key] at read
    simp only [value, OptionalField.read, read, settle, key]
    cases FieldType.accepted? _ (rawValue params f.key) <;> rfl

theorem settle_holds (fit : s.isFit = true) (raw : Json) : s.Holds (s.settle raw) := by
  cases s with
  | needed f =>
    simp only [isFit, Bool.and_eq_true] at fit
    exact ⟨_, rfl, FieldType.within_clamp fit.1.1 _⟩
  | optional f =>
    simp only [settle]
    cases FieldType.accepted? _ raw with
    | none => exact .inl rfl
    | some v => exact .inr ⟨_, rfl, FieldType.within_clamp fit v⟩

theorem settle_of_keeps (kept : s.Keeps raw) : s.settle raw = raw := by
  cases s with
  | needed f | optional f =>
    obtain ⟨v, rfl, sound, unmoved⟩ := kept
    simp [settle, FieldType.accepted?_toJson sound, unmoved]

theorem settle_null (fit : s.isFit = true) : s.settle .null = s.fallback := by
  have nothing : ∀ t : FieldType, t.accepted? .null = none := fun t => by cases t <;> rfl
  cases s with
  | needed f =>
    simp only [isFit, Bool.and_eq_true, beq_iff_eq] at fit
    simp only [settle, nothing, Option.getD_none, fit.2, fallback]
  | optional f => simp only [settle, nothing, Option.map_none, Option.getD_none, fallback]

/-- What a parameter has made of a value is read as it is. -/
theorem value_settled (fit : s.isFit = true) (held : raw.isHeld = true) (same : rawValue params s.key = s.settle raw) :
    s.value params = .ok (s.settle raw) := by
  cases s with
  | needed f =>
    simp only [isFit, Bool.and_eq_true, beq_iff_eq] at fit
    obtain ⟨⟨bounds, ready⟩, unmoved⟩ := fit
    simp only [key, settle] at same
    simp only [value, settle]
    -- what has been taken is sound within its bounds; otherwise the fallback is read
    cases found : FieldType.accepted? _ raw with
    | some v =>
      rw [found] at same
      rw [f.read_settled bounds (FieldType.isSound_of_accepted? held found) same]
      rfl
    | none =>
      rw [found] at same
      rw [f.read_fallback ready (same.trans unmoved)]
      rfl
  | optional f =>
    simp only [key, settle] at same
    simp only [value, settle]
    cases found : FieldType.accepted? _ raw with
    | some v =>
      rw [found] at same
      rw [f.read_settled fit (FieldType.isSound_of_accepted? held found) same]
      rfl
    | none =>
      rw [found] at same
      rw [f.read_nothing same]
      rfl

end Slot

namespace Params

/-! ## All parameters of a kind -/

theorem isFit (kind : Kind) : ∀ s ∈ slots kind, s.isFit = true := by
  cases kind <;> decide +kernel

theorem nodup_keys (kind : Kind) : ((slots kind).map Slot.key).Nodup := by
  cases kind <;> decide

/-- Values that are written under the keys of parameters are found there. -/
theorem rawValue_map {all : List Slot} (distinct : (all.map Slot.key).Nodup) (value : Slot → Json) {s : Slot}
    (there : s ∈ all) : rawValue (all.map fun s => (s.key, value s)) s.key = value s := by
  induction all with
  | nil => cases there
  | cons first rest ih =>
    rw [List.map_cons, List.nodup_cons] at distinct
    rcases List.mem_cons.mp there with rfl | later
    · simp [rawValue, Json.field?]
    · have other : first.key ≠ s.key := fun same => distinct.1 (same ▸ List.mem_map_of_mem later)
      have deeper := ih distinct.2 later
      simpa [rawValue, Json.field?, other] using deeper

/-- All parameters are read if each of them is. -/
theorem readAll_eq {kind : Kind} {params : Fields} {value : Slot → Json}
    (each : ∀ s ∈ slots kind, s.value params = .ok (value s)) :
    readAll kind params = .ok ((slots kind).map fun s => (s.name, value s)) :=
  mapM_eq_ok _ fun s there => by
    rw [each s there]
    rfl

theorem rawValue_fieldsOf (given : Json) (key : String) : rawValue given.fieldsOf key = given.under key := by
  cases given <;> rfl

/-- What a kind makes of the values under its keys is of the declared types and within the bounds, depends on nothing
else, and is not changed by reading it again. -/
theorem readAll_settles (kind : Kind) : ∃ settled : Slot → Json → Json,
    (∀ s ∈ slots kind, settled s .null = s.fallback ∧ (∀ raw, s.Holds (settled s raw)) ∧
      ∀ raw, s.Keeps raw → settled s raw = raw) ∧
    ∀ given : Json, given.isHeld = true →
      readAll kind given.fieldsOf = .ok ((slots kind).map fun s => (s.name, settled s (given.under s.key))) ∧
      readAll kind ((slots kind).map fun s => (s.key, settled s (given.under s.key))) = readAll kind given.fieldsOf ∧
      ((∀ fields, given ≠ .object fields) →
        readAll kind given.fieldsOf = .ok ((slots kind).map fun s => (s.name, s.fallback))) := by
  have fit := isFit kind
  refine ⟨Slot.settle, fun s there => ⟨Slot.settle_null (fit s there),
    Slot.settle_holds (fit s there), fun raw => Slot.settle_of_keeps⟩, fun given held => ?_⟩
  have read : readAll kind given.fieldsOf = .ok ((slots kind).map fun s => (s.name, s.settle (given.under s.key))) :=
    readAll_eq fun s _ => by
      have own := rawValue_fieldsOf given s.key
      have heldOwn := Json.isHeld_under held s.key
      rw [← own] at heldOwn ⊢
      exact Slot.value_eq heldOwn
  refine ⟨read, ?_, fun noObject => ?_⟩
  · rw [read]
    exact readAll_eq fun s there =>
      Slot.value_settled (fit s there) (Json.isHeld_under held s.key) (rawValue_map (nodup_keys kind) _ there)
  · rw [read]
    refine congrArg Except.ok (List.map_congr_left fun s there => ?_)
    have nothing : given.under s.key = .null := by
      cases given with
      | object fields => exact absurd rfl (noObject fields)
      | _ => rfl
    rw [nothing, Slot.settle_null (fit s there)]

/-- Parameters of a path: a tension that is no number, one beyond its bounds, one that is a truth value, and no
points. -/
def mixed : Json :=
  .object [("tension", .real (0.0 / 0.0)), ("tensionInner", .whole 7), ("tensionOuter", .bool true), ("points", .null)]

theorem mixed_settles : mixed.isHeld = true ∧ (∃ settled : Slot → Json → Json,
      readAll .path mixed.fieldsOf = .ok ((slots .path).map fun s => (s.name, settled s (mixed.under s.key))) ∧
      readAll .path ((slots .path).map fun s => (s.key, settled s (mixed.under s.key))) =
        readAll .path mixed.fieldsOf) ∧
    readAll .path (Json.text "path").fieldsOf = .ok ((slots .path).map fun s => (s.name, s.fallback)) := by
  have held : mixed.isHeld = true := by decide +kernel
  obtain ⟨settled, -, each⟩ := readAll_settles .path
  exact ⟨held, ⟨settled, (each mixed held).1, (each mixed held).2.1⟩, (each (.text "path") rfl).2.2 nofun⟩

end Params

end VectorGraph
