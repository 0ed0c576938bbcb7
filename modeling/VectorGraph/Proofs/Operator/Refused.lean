import VectorGraph.Proofs.Engine.Ledger
import VectorGraph.Proofs.Outline.Held

/-!
When operators fail for their parameters.

An operator reads its parameters first, and fails with them (`Node.perform_refused`). Most operators do nothing else
that can fail: whatever the parameters, the inputs and the pixels are, they fail for refused parameters only
(`Node.yields_error_iff`). The others compute with coordinates that may leave the doubles, or with the sizes of
pictures.
-/
namespace VectorGraph

open Markup

/-! ## Drawings -/

namespace Drawing

variable {α : Type} {x : Except Failure α} {d : Drawing Work} {k : α → Drawing Work} {P Q : Prop} {f : Fragment}
  {t : FieldType} {params : Fields} {slots : List Slot}

/-- If `P` holds the drawing fails, because a number is too large. -/
def Fails (d : Drawing Work) (P : Prop) : Prop := P → ∀ ids, (d.run.run ids).1 = .error .tooLarge

/-- If `P` holds the drawing fails, and otherwise nothing fails that comes of it, whatever the back-end replies. -/
structure Refuses (d : Drawing Work) (P : Prop) : Prop where
  fails : d.Fails P
  only : ∀ replies ids failure, Work.Yields replies (d.run.run ids).1 (.error failure) → P

theorem run_read (x : Except Failure α) (k : α → Drawing Work) (ids : IdSource) :
    (liftM x >>= k).run.run ids =
      match x with
      | .ok a => (k a).run.run ids
      | .error failure => (.error failure, ids) := by
  cases x <;> rfl

namespace Fails

theorem congr (h : d.Fails P) (same : P ↔ Q) : d.Fails Q := fun holds => h (same.mpr holds)

theorem nothing : d.Fails (([] : List Slot).any (·.refuses params)) := nofun

/-- A drawing that begins with a reading fails as this does, or as the rest does. -/
theorem read (h : VectorGraph.Refuses x P) (next : ∀ a, x = .ok a → (k a).Fails Q) :
    (liftM x >>= k).Fails (P ∨ Q) := by
  intro either ids
  rw [run_read]
  cases x with
  | error failure => rw [((h failure).mp rfl).1]
  | ok a =>
    rcases either with holds | holds
    · cases (h .tooLarge).mpr ⟨rfl, holds⟩
    · exact next a rfl holds ids

theorem needed {field : Field t} {k : t.Value → Drawing Work}
    (next : ∀ a, (k a).Fails (slots.any (·.refuses params))) :
    (liftM (field.read params) >>= k).Fails ((.needed field :: slots).any (·.refuses params)) :=
  (read (field.read_refuses params) fun a _ => next a).congr (by simp [Slot.refuses])

theorem optional {field : OptionalField t} {k : Option t.Value → Drawing Work}
    (next : ∀ a, (k a).Fails (slots.any (·.refuses params))) :
    (liftM (field.read params) >>= k).Fails ((.optional field :: slots).any (·.refuses params)) :=
  (read (field.read_refuses params) fun a _ => next a).congr (by simp [Slot.refuses])

end Fails

namespace Refuses

theorem congr (h : d.Refuses P) (same : P ↔ Q) : d.Refuses Q :=
  ⟨h.fails.congr same, fun replies ids failure yields => same.mp (h.only replies ids failure yields)⟩

theorem answer (f : Fragment) : (Drawing.answer f).Refuses False :=
  ⟨False.elim, fun _ _ _ yields => nomatch yields⟩

theorem read (h : VectorGraph.Refuses x P) (next : ∀ a, x = .ok a → (k a).Refuses Q) :
    (liftM x >>= k).Refuses (P ∨ Q) := by
  refine ⟨.read h fun a read => (next a read).fails, fun replies ids failure yields => ?_⟩
  rw [run_read] at yields
  cases x with
  | error cause => exact .inl ((h cause).mp rfl).2
  | ok a => exact .inr ((next a rfl).only replies ids failure yields)

theorem needed {field : Field t} {k : t.Value → Drawing Work}
    (next : ∀ a, field.read params = .ok a → (k a).Refuses (slots.any (·.refuses params))) :
    (liftM (field.read params) >>= k).Refuses ((.needed field :: slots).any (·.refuses params)) :=
  (read (field.read_refuses params) next).congr (by simp [Slot.refuses])

/-- When all parameters are read, nothing can fail. -/
theorem last (h : d.Refuses False) : d.Refuses (([] : List Slot).any (·.refuses params)) := h.congr (by simp)

/-- What is sure to be there takes no part. -/
theorem sure (there : ∃ a, x = .ok a) (next : ∀ a, x = .ok a → (k a).Refuses P) : (liftM x >>= k).Refuses P := by
  obtain ⟨a, rfl⟩ := there
  exact (read (.never a) next).congr (iff_of_eq (false_or P))

theorem mint {word : String} {k : String → Drawing Work} (next : ∀ id, (k id).Refuses P) :
    (Drawing.mint word >>= k).Refuses P :=
  ⟨fun holds ids => (next _).fails holds (ids.mint word).2,
    fun replies ids failure yields => (next (ids.mint word).1).only replies (ids.mint word).2 failure yields⟩

theorem render {c : Context} {size viewport : Extent} {resume : Except RasterFault Picture → Outcome}
    (sound : ∀ reply, ∃ g, (resume reply).result = .ok g) : (c.render f size viewport resume).Refuses False := by
  refine ⟨False.elim, fun replies ids failure yields => ?_⟩
  have failed : ∃ reply, .error failure = (resume reply).result := by
    unfold Context.render at yields
    split at yields
    · obtain ⟨reply, -, same⟩ := yields
      exact ⟨reply, same⟩
    · exact ⟨_, yields⟩
  obtain ⟨reply, same⟩ := failed
  obtain ⟨g, result⟩ := sound reply
  cases same.trans result

end Refuses

end Drawing

/-! ## What operators look at -/

namespace Json

/-- Whether a stop of a gradient is refused: its opacity is looked at only if it has an offset. -/
def isStopBeyond (entry : Json) : Bool :=
  (entry.under "offset").isBeyond ||
    (entry.under "offset").scalar?.isSome && (entry.under "opacity").isBeyond

end Json

namespace Kind

/-- The kinds that draw on their input and look at nothing if there is none. -/
def restyles : Kind → Bool
  | .trace | .fill | .stroke | .gradientFade | .glow | .neon | .softBlur | .pixelate | .layerBlur | .polar => true
  | _ => false

/-- Whether an operator draws nothing, whatever its parameters are. -/
def isIdle (kind : Kind) (inputs : Inputs) : Bool := kind.restyles && (inputs.at? "in").isNone

/-- Whether an operator is refused its parameters, stops of a gradient among them. -/
def refuses (kind : Kind) (params : Fields) (inputs : Inputs) : Bool :=
  !kind.isIdle inputs && (Params.refuses kind params ||
    kind == .gradient && (rawValue params Params.Gradient.stops.key).items.any (·.isStopBeyond))

/-- The kinds that can fail for nothing but their parameters. The other ones compute with coordinates that may
leave the doubles, or with the sizes of pictures. -/
def isSteady : Kind → Bool
  | .wavyRing | .path | .pen | .wave | .trace | .layerBlur => false
  | _ => true

end Kind

namespace Operator

open Drawing Json Outline

variable {c : Context} {params : Fields} {inputs : Inputs} {P : Prop}

theorem ratioText_eq_ok {a : Int} (small : a.natAbs < 2 ^ 53) {b : Int} (given_ : b ≠ 0) :
    ∃ s, ratioText a b = .ok s := by
  obtain ⟨x, hx⟩ := ratio_eq_ok small given_
  exact ⟨coordinateText x, by rw [ratioText, hx]; rfl⟩

/-! ## Stops -/

theorem unitOf?_refuses (value : Json) : VectorGraph.Refuses (unitOf? value) value.isBeyond := by
  cases value with
  | whole n =>
    cases held : doubleOfInt n with
    | none =>
      have failed : unitOf? (.whole n) = .error .tooLarge := by
        simp only [unitOf?, scalar?, Scalar.toFloat?, held]
      rw [failed]
      exact VectorGraph.Refuses.always.congr (by simp [isBeyond, held])
    | some x =>
      have read : unitOf? (.whole n) = .ok (some (unitInterval x)) := by
        simp only [unitOf?, scalar?, Scalar.toFloat?, held]
      rw [read]
      exact (VectorGraph.Refuses.never _).congr (by simp [isBeyond, held])
  | _ => exact (VectorGraph.Refuses.never _).congr (by simp [isBeyond])

theorem unitOf?_isSome {value : Json} {found : Option Float} (read : unitOf? value = .ok found) :
    found.isSome = value.scalar?.isSome := by
  cases h : value.scalar? with
  | none =>
    rw [unitOf?, h] at read
    cases read
    rfl
  | some a =>
    rw [unitOf?, h] at read
    dsimp only at read
    split at read <;> cases read
    rfl

theorem readStop_refuses (entry : Json) : VectorGraph.Refuses (readStop entry) entry.isStopBeyond := by
  refine ((unitOf?_refuses (entry.under "offset")).andThen
    (Q := (entry.under "offset").scalar?.isSome = true ∧ (entry.under "opacity").isBeyond = true)
    fun found read => ?_).congr (by simp [isStopBeyond])
  rw [← unitOf?_isSome read]
  cases found with
  | none => exact (VectorGraph.Refuses.never none).congr (by simp)
  | some offset => exact ((unitOf?_refuses (entry.under "opacity")).map _).congr (by simp)

/-- The stops of a gradient are refused if and only if one of them is. -/
theorem readStops_refuses (raw : List Json) :
    VectorGraph.Refuses (readStops raw) (∃ entry ∈ raw, entry.isStopBeyond = true) :=
  (VectorGraph.Refuses.mapM fun entry _ => readStop_refuses entry).map _

/-! ## Shapes -/

section Shapes

variable (small : c.side.natAbs < 2 ^ 53) (sized : c.settings.previewResolution ≠ 0)

include small

theorem centered_eq_ok : ∃ s, centered c = .ok s := by
  obtain ⟨center, h⟩ := ratioText_eq_ok small (b := 2) (by decide)
  exact ⟨_, by rw [centered, h]; rfl⟩

include sized

theorem rectangle_refuses : (rectangle c params inputs).Refuses (Params.refuses .rectangle params) := by
  unfold rectangle
  exact .needed fun width _ => .needed fun height _ => .needed fun topLeft _ => .needed fun topRight _ =>
    .needed fun bottomRight _ => .needed fun bottomLeft _ => .last <|
    .sure (ratio_eq_ok small sized) fun scale _ => .sure (outlineText_eq_ok (held_rectangle _ _ _ _ _ _)) fun d _ =>
    .sure (ratio_eq_ok small (by decide)) fun center _ => .answer _

theorem circle_refuses : (circle c params inputs).Refuses (Params.refuses .circle params) := by
  unfold circle
  exact .needed fun width _ => .needed fun height _ => .last <|
    .sure (ratio_eq_ok small sized) fun scale _ => .sure (outlineText_eq_ok (held_ellipse _ _)) fun d _ =>
    .sure (centered_eq_ok small) fun transform _ => .answer _

theorem polygon_refuses : (polygon c params inputs).Refuses (Params.refuses .polygon params) := by
  unfold polygon
  refine .needed fun points _ => .needed fun outer _ => .needed fun inner _ => .last <|
    .sure (ratio_eq_ok small sized) fun scale _ => ?_
  obtain ⟨outline, drawn, held⟩ := star_held points (outer * scale) (inner * scale)
  refine .sure ⟨outline, drawn⟩ fun outline' drawn' => ?_
  obtain rfl := Except.ok.inj (drawn.symm.trans drawn')
  exact .sure (outlineText_eq_ok held) fun d _ => .sure (centered_eq_ok small) fun transform _ => .answer _

theorem beam_refuses : (beam c params inputs).Refuses (Params.refuses .beam params) := by
  unfold beam
  exact .needed fun length _ => .needed fun top _ => .needed fun bottom _ => .last <|
    .sure (ratio_eq_ok small sized) fun scale _ => .sure (outlineText_eq_ok (held_beam _ _ _)) fun d _ =>
    .mint fun id => .sure (centered_eq_ok small) fun transform _ => .answer _

end Shapes

/-! ## Sources -/

theorem image_refuses : (image c params inputs).Refuses (Params.refuses .image params) := by
  unfold image
  refine .needed fun source _ => .last ?_
  split
  · exact .answer _
  · split
    · exact .answer _
    · exact ⟨False.elim, fun _ _ _ yields => nomatch yields⟩

/-- Nothing is wrong with the stops that stand in for missing ones. -/
theorem sound_defaultStops : ∀ entry ∈ Params.defaultStops, entry.isStopBeyond = false := by decide +kernel

theorem gradient_refuses : (gradient c params inputs).Refuses (Kind.refuses .gradient params inputs) := by
  have given_ : ∀ raw, Params.Gradient.stops.read params = .ok raw → VectorGraph.Refuses (readStops raw)
      ((rawValue params Params.Gradient.stops.key).items.any (·.isStopBeyond)) := by
    intro raw read
    refine (readStops_refuses raw).congr ?_
    obtain ⟨found, accepted, same⟩ := bind_eq_ok.mp read
    obtain rfl := Except.ok.inj same
    generalize rawValue params Params.Gradient.stops.key = value at accepted ⊢
    cases value with
    | list entries =>
      obtain rfl := Except.ok.inj accepted
      simp [FieldType.clamp, items]
    | _ =>
      obtain rfl := Except.ok.inj accepted
      have sound : ∀ entry ∈ Params.Gradient.stops.fallback, entry.isStopBeyond = false := sound_defaultStops
      simpa [FieldType.clamp, items] using sound
  unfold gradient
  refine (Refuses.read (Params.Gradient.stops.read_refuses params) fun raw read =>
    .read (Params.Gradient.x.read_refuses params) fun x _ => .read (Params.Gradient.y.read_refuses params) fun y _ =>
    .read (Params.Gradient.power.read_refuses params) fun _ _ =>
    .read (Q := False) (given_ raw read) fun found _ => ?_).congr
      (by simp [Kind.refuses, Kind.isIdle, Kind.restyles, Params.refuses, Params.slots, Slot.refuses, or_assoc])
  extract_lets dx draw
  have drawn : ∀ stops, (draw stops).Refuses False := fun stops => .mint fun id => .answer _
  split
  · exact .sure ((readStops_refuses _).sure (by simpa using sound_defaultStops)) fun stops _ => drawn stops
  · rw [pure_bind]
    exact drawn found

/-- A whole number that was read stands within its bounds. -/
theorem read_within {f : Field .whole} {low high v : Int} (hl : f.low = some low) (hh : f.high = some high)
    (order : low ≤ high) (read : f.read params = .ok v) : low ≤ v ∧ v ≤ high := by
  obtain ⟨found, -, same⟩ := bind_eq_ok.mp read
  obtain rfl := Except.ok.inj same
  have raised : ∀ n : Int, low ≤ FieldType.atLeast (some low) n := by
    intro n
    simp only [FieldType.atLeast]
    split <;> omega
  have lowered : ∀ n : Int, low ≤ n →
      low ≤ FieldType.atMost (some high) n ∧ FieldType.atMost (some high) n ≤ high := by
    intro n above
    simp only [FieldType.atMost]
    split <;> omega
  simp only [FieldType.clamp, hl, hh]
  exact lowered _ (raised _)

theorem color_refuses : (color c params inputs).Refuses (Params.refuses .color params) := by
  unfold color
  refine .needed fun r hr => .needed fun g hg => .needed fun b hb => .last ?_
  split
  · exact .answer _
  · have channel : ∀ {f : Field .whole} {v : Int}, f.low = some 0 → f.high = some 255 → f.read params = .ok v →
        ∃ s, ratioText v 255 = .ok s := by
      intro f v low high read
      have := read_within low high (by decide) read
      exact ratioText_eq_ok (by omega) (by decide)
    exact .sure (channel rfl rfl hr) fun red _ => .sure (channel rfl rfl hg) fun green _ =>
      .sure (channel rfl rfl hb) fun blue _ => .mint fun id => .answer _

theorem brightness_refuses : (brightness c params inputs).Refuses (Params.refuses .value params) := by
  unfold brightness
  exact .needed fun value _ => .last (.answer _)

theorem opacity_refuses : (opacity c params inputs).Refuses (Params.refuses .alpha params) := by
  unfold opacity
  refine .needed fun value _ => .last ?_
  split <;> exact .answer _

/-! ## Operators on their input -/

/-- Without an input such an operator draws nothing; with one it is refused its parameters as they are. -/
theorem onInput_cases {kind : Kind} (restyles : kind.restyles = true)
    (draw : Context → Fields → Fragment → Drawing Work) (c : Context) (params : Fields) (inputs : Inputs) :
    (onInput draw c params inputs = Drawing.answer .empty ∧ kind.refuses params inputs = false) ∨
    ∃ source, onInput draw c params inputs = draw c params source ∧
      kind.refuses params inputs = Params.refuses kind params := by
  have stopless : (kind == .gradient) = false := by
    cases kind <;> first | rfl | cases restyles
  cases found : inputs.at? "in" with
  | none =>
    refine .inl ⟨?_, by simp [Kind.refuses, Kind.isIdle, restyles, found]⟩
    rw [onInput, found]
  | some source =>
    refine .inr ⟨source, ?_, by simp [Kind.refuses, Kind.isIdle, found, stopless]⟩
    rw [onInput, found]

theorem onInput_refuses {draw : Context → Fields → Fragment → Drawing Work} {kind : Kind}
    (restyles : kind.restyles = true) (h : ∀ source, (draw c params source).Refuses (Params.refuses kind params)) :
    (onInput draw c params inputs).Refuses (kind.refuses params inputs) := by
  rcases onInput_cases restyles draw c params inputs with ⟨empty, unrefused⟩ | ⟨source, drawn, same⟩
  · rw [empty, unrefused]
    exact (Refuses.answer _).congr (by simp)
  · rw [drawn, same]
    exact h source

theorem fill_refuses : (fill c params inputs).Refuses (Kind.refuses .fill params inputs) :=
  onInput_refuses rfl fun _ => .needed fun _ _ => .needed fun _ _ => .last (.answer _)

theorem stroke_refuses : (stroke c params inputs).Refuses (Kind.refuses .stroke params inputs) :=
  onInput_refuses rfl fun _ => .needed fun _ _ => .needed fun _ _ => .last (.answer _)

theorem glow_refuses : (glow c params inputs).Refuses (Kind.refuses .glow params inputs) :=
  onInput_refuses rfl fun _ => .needed fun _ _ => .needed fun _ _ => .last <|
    .mint fun _ => .answer _

theorem neon_refuses : (neon c params inputs).Refuses (Kind.refuses .neon params inputs) :=
  onInput_refuses rfl fun _ => .needed fun _ _ => .needed fun _ _ => .last <|
    .mint fun _ => .answer _

theorem softBlur_refuses : (softBlur c params inputs).Refuses (Kind.refuses .softBlur params inputs) :=
  onInput_refuses rfl fun _ => .needed fun _ _ => .last <| .mint fun _ => .answer _

theorem gradientFade_refuses :
    (gradientFade c params inputs).Refuses (Kind.refuses .gradientFade params inputs) :=
  onInput_refuses rfl fun _ => .needed fun _ _ => .needed fun _ _ => .needed fun _ _ => .last <|
    .mint fun _ => .mint fun _ => .answer _

theorem pixelate_refuses (small : c.side.natAbs < 2 ^ 53) :
    (pixelate c params inputs).Refuses (Kind.refuses .pixelate params inputs) := by
  refine onInput_refuses rfl fun _ => .needed fun size _ => .last <| .sure (double_eq_ok small) fun side _ =>
    .render fun reply => ?_
  cases reply <;> exact ⟨_, rfl⟩

theorem polar_refuses : (polar c params inputs).Refuses (Kind.refuses .polar params inputs) := by
  refine onInput_refuses rfl fun _ => .needed fun mode _ => .needed fun x _ => .needed fun y _ =>
    .needed fun radialScale _ => .needed fun angularScale _ => .last <| .render fun reply => ?_
  cases reply <;> exact ⟨_, rfl⟩

/-! ## Moves and combinations -/

theorem translate_refuses (small : c.side.natAbs < 2 ^ 53) (there : ∃ f, needed inputs "in" = .ok f) :
    (translate c params inputs).Refuses (Params.refuses .translate params) := by
  unfold translate
  exact .needed fun x _ => .needed fun y _ => .last <| .sure (double_eq_ok small) fun size _ =>
    .sure there fun source _ => .answer _

theorem rotate_refuses (small : c.side.natAbs < 2 ^ 53) (there : ∃ f, needed inputs "in" = .ok f) :
    (rotate c params inputs).Refuses (Params.refuses .rotate params) := by
  unfold rotate
  exact .needed fun angle _ => .last <| .sure (ratioText_eq_ok small (by decide)) fun center _ =>
    .sure there fun source _ => .answer _

theorem scale_refuses (small : c.side.natAbs < 2 ^ 53) (there : ∃ f, needed inputs "in" = .ok f) :
    (scale c params inputs).Refuses (Params.refuses .scale params) := by
  unfold scale
  exact .needed fun factor _ => .last <| .sure (ratioText_eq_ok small (by decide)) fun center _ =>
    .sure there fun source _ => .answer _

theorem output_refuses (there : ∃ f, needed inputs "in" = .ok f) :
    (output c params inputs).Refuses (Params.refuses .output params) := by
  unfold output
  exact .last <| .sure there fun source _ => .answer _

/-- Going on with what a mask has made of its inputs. -/
theorem masked_refuses {source shape : Fragment} {resolution : Extent} {inverted : Bool}
    {k : String × List String → Drawing Work} (next : ∀ made, (k made).Refuses P) :
    (masked source shape resolution inverted >>= k).Refuses P := by
  unfold masked
  simp only [bind_assoc, pure_bind]
  exact .mint fun mask => .mint fun filter => next _

/-- A combination fails for nothing if what combines the inputs does not. -/
theorem binary_refuses {combine : Fragment → Fragment → Extent → Drawing (String × List String)}
    (h : ∀ a b (k : String × List String → Drawing Work), (∀ made, (k made).Refuses False) →
      (combine a b c.resolution >>= k).Refuses False)
    (there : ∃ f, needed inputs "a" = .ok f) : (binary combine c params inputs).Refuses False := by
  unfold binary
  refine .sure there fun a _ => ?_
  split
  · exact .answer _
  · exact h a _ _ fun made => .answer _

theorem union_refuses (there : ∃ f, needed inputs "a" = .ok f) :
    (union c params inputs).Refuses (Params.refuses .union params) :=
  .last <| binary_refuses (fun _ _ _ next => next _) there

theorem difference_refuses (there : ∃ f, needed inputs "a" = .ok f) :
    (difference c params inputs).Refuses (Params.refuses .difference params) :=
  .last <| binary_refuses (fun _ _ _ next => masked_refuses next) there

theorem intersection_refuses (there : ∃ f, needed inputs "a" = .ok f) :
    (intersection c params inputs).Refuses (Params.refuses .intersection params) :=
  .last <| binary_refuses (fun _ _ _ next => masked_refuses next) there

theorem exclusion_refuses (there : ∃ f, needed inputs "a" = .ok f) :
    (exclusion c params inputs).Refuses (Params.refuses .exclusion params) := by
  refine .last <| binary_refuses (fun a b k next => ?_) there
  simp only [bind_assoc, pure_bind]
  exact masked_refuses fun made => masked_refuses fun made' => next _

/-! ## Operators that can fail otherwise -/

theorem wavyRing_fails : (wavyRing c params inputs).Fails (Params.refuses .wavyRing params) := by
  unfold wavyRing
  exact .needed fun radius => .needed fun frequency => .needed fun amplitude => .nothing

theorem path_fails : (path c params inputs).Fails (Params.refuses .path params) := by
  unfold Operator.path
  exact .needed fun points => .needed fun tension => .optional fun inner => .optional fun outer => .nothing

theorem pen_fails : (pen c params inputs).Fails (Params.refuses .pen params) := by
  unfold pen
  exact .needed fun points => .nothing

theorem wave_fails : (wave c params inputs).Fails (Params.refuses .wave params) := by
  unfold wave
  exact .needed fun waveType => .needed fun generators => .needed fun frequency => .needed fun amplitude =>
    .needed fun threshold => .needed fun softness => .needed fun seed => .nothing

theorem onInput_fails {draw : Context → Fields → Fragment → Drawing Work} {kind : Kind}
    (restyles : kind.restyles = true) (h : ∀ source, (draw c params source).Fails (Params.refuses kind params)) :
    (onInput draw c params inputs).Fails (kind.refuses params inputs) := by
  rcases onInput_cases restyles draw c params inputs with ⟨-, unrefused⟩ | ⟨source, drawn, same⟩
  · rw [unrefused]
    exact nofun
  · rw [drawn, same]
    exact h source

theorem trace_fails : (trace c params inputs).Fails (Kind.refuses .trace params inputs) :=
  onInput_fails rfl fun _ => .needed fun _ => .optional fun _ => .needed fun _ => .nothing

theorem layerBlur_fails : (layerBlur c params inputs).Fails (Kind.refuses .layerBlur params inputs) :=
  onInput_fails rfl fun _ => .needed fun _ => .needed fun _ => .needed fun _ => .nothing

end Operator

/-! ## All kinds -/

open Operator Drawing

/-- An input that is required is there. -/
theorem needed_eq_ok {kind : Kind} {inputs : Inputs} {socket : String}
    (complete : kind.requiredSockets.find? (fun s => !inputs.any (·.1 == s)) = none)
    (required : socket ∈ kind.requiredSockets) : ∃ f, needed inputs socket = .ok f := by
  have connected : inputs.any (·.1 == socket) = true := by
    simpa using List.find?_eq_none.mp complete socket required
  have found : (inputs.find? (·.1 == socket)).isSome = true := by
    rw [List.find?_isSome]
    exact List.any_eq_true.mp connected
  obtain ⟨input, there⟩ := Option.isSome_iff_exists.mp found
  exact ⟨input.2, by rw [needed, Inputs.at?, there]; rfl⟩

namespace Kind

variable {kind : Kind} {c : Context} {params : Fields} {inputs : Inputs}

/-- Kinds that look at their parameters whether there is an input or not. -/
theorem refuses_of_busy (busy : kind.restyles = false) (other : kind ≠ .gradient) :
    kind.refuses params inputs = Params.refuses kind params := by
  simp [refuses, isIdle, busy, other]

/-- A steady operator whose inputs are complete fails for refused parameters and for nothing else. -/
theorem operator_refuses (steady : kind.isSteady = true) (small : c.side.natAbs < 2 ^ 53)
    (sized : c.settings.previewResolution ≠ 0)
    (complete : kind.requiredSockets.find? (fun s => !inputs.any (·.1 == s)) = none) :
    (kind.operator c params inputs).Refuses (kind.refuses params inputs) := by
  have there : ∀ {socket}, socket ∈ kind.requiredSockets → ∃ f, needed inputs socket = .ok f := needed_eq_ok complete
  have plain : ∀ {d : Drawing Work}, kind.restyles = false → kind ≠ .gradient →
      d.Refuses (Params.refuses kind params) → d.Refuses (kind.refuses params inputs) :=
    fun busy other h => refuses_of_busy busy other ▸ h
  cases kind with
  | rectangle => exact plain rfl nofun (@rectangle_refuses c params inputs small sized)
  | circle => exact plain rfl nofun (@circle_refuses c params inputs small sized)
  | polygon => exact plain rfl nofun (@polygon_refuses c params inputs small sized)
  | beam => exact plain rfl nofun (@beam_refuses c params inputs small sized)
  | image => exact plain rfl nofun (@image_refuses c params inputs)
  | gradient => exact gradient_refuses
  | color => exact plain rfl nofun color_refuses
  | value => exact plain rfl nofun (@brightness_refuses c params inputs)
  | alpha => exact plain rfl nofun opacity_refuses
  | fill => exact fill_refuses
  | stroke => exact stroke_refuses
  | gradientFade => exact gradientFade_refuses
  | glow => exact glow_refuses
  | neon => exact neon_refuses
  | softBlur => exact softBlur_refuses
  | pixelate => exact pixelate_refuses small
  | translate => exact plain rfl nofun (translate_refuses small (there (by decide)))
  | rotate => exact plain rfl nofun (rotate_refuses small (there (by decide)))
  | scale => exact plain rfl nofun (scale_refuses small (there (by decide)))
  | polar => exact polar_refuses
  | union => exact plain rfl nofun (union_refuses (there (by decide)))
  | difference => exact plain rfl nofun (difference_refuses (there (by decide)))
  | intersection => exact plain rfl nofun (intersection_refuses (there (by decide)))
  | exclusion => exact plain rfl nofun (exclusion_refuses (there (by decide)))
  | output => exact plain rfl nofun (@output_refuses c params inputs (there (by decide)))
  | wavyRing | path | pen | wave | trace | layerBlur => cases steady

/-- Any operator whose inputs are complete fails with its parameters. -/
theorem operator_fails (small : c.side.natAbs < 2 ^ 53) (sized : c.settings.previewResolution ≠ 0)
    (complete : kind.requiredSockets.find? (fun s => !inputs.any (·.1 == s)) = none) :
    (kind.operator c params inputs).Fails (kind.refuses params inputs) := by
  by_cases steady : kind.isSteady = true
  · exact (operator_refuses steady small sized complete).fails
  have plain : ∀ {d : Drawing Work}, kind.restyles = false → kind ≠ .gradient →
      d.Fails (Params.refuses kind params) → d.Fails (kind.refuses params inputs) :=
    fun busy other h => refuses_of_busy busy other ▸ h
  cases kind with
  | wavyRing => exact plain rfl nofun (@wavyRing_fails c params inputs)
  | path => exact plain rfl nofun (@path_fails c params inputs)
  | pen => exact plain rfl nofun (@pen_fails c params inputs)
  | wave => exact plain rfl nofun wave_fails
  | trace => exact trace_fails
  | layerBlur => exact layerBlur_fails
  | _ => exact absurd rfl steady

end Kind

namespace Node

variable {n : Node} {settings : Settings} {canRender : Bool} {resolution : Extent} {inputs : Inputs}

section

variable (small : resolution.count.natAbs < 2 ^ 53) (sized : settings.previewResolution ≠ 0)
  (complete : n.kind.requiredSockets.find? (fun s => !inputs.any (·.1 == s)) = none)

include small sized complete

/-- A node whose parameters are refused fails, with whatever ids. -/
theorem perform_refused (refused : n.kind.refuses n.params inputs = true) (ids : IdSource) :
    (n.perform settings canRender resolution inputs ids).1 = .error .tooLarge :=
  @Kind.operator_fails n.kind ⟨settings, resolution, canRender, n.id.nameText⟩ n.params inputs small sized complete
    refused ids

/-- A node of a steady kind fails for refused parameters and for nothing else, whatever the back-end replies. -/
theorem yields_error_iff (steady : n.kind.isSteady = true) {replies : Replies} {ids : IdSource} {failure : Failure} :
    Work.Yields replies (n.perform settings canRender resolution inputs ids).1 (.error failure) ↔
      failure = .tooLarge ∧ n.kind.refuses n.params inputs = true := by
  have refuses := @Kind.operator_refuses n.kind ⟨settings, resolution, canRender, n.id.nameText⟩ n.params inputs steady
    small sized complete
  constructor
  · intro yields
    have refused := refuses.only replies ids failure yields
    rw [perform_refused small sized complete refused] at yields
    exact ⟨Except.error.inj yields, refused⟩
  · rintro ⟨rfl, refused⟩
    rw [perform_refused small sized complete refused]
    rfl

end

end Node

end VectorGraph
