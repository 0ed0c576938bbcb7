import VectorGraph.Proofs.Engine.Ledger
import VectorGraph.Proofs.Operator.Minting

/-!
What operators do where their input cannot be rendered.

Five kinds ask for pixels, and they do so where an input is connected (`Kind.operator_comes`). What each of them falls
back on is `Kind.FallsBack`, whatever has gone wrong with the rendering; where there is no back-end, an operator comes to
what it would come to if there were one that fails (`Kind.operator_unable`). So no operator fails because of a
rendering: if it fails it would do so with the pictures that it has got, or with nothing connected
(`Node.fails_unaided`).
-/
namespace VectorGraph

/-! ## Drawings -/

/-- The work that is left where there is no back-end. -/
def Work.unable : Work → Work
  | .done outcome => .done outcome
  | .paint _ resume => .done (resume (.error .notConfigured))

namespace Drawing

variable {α : Type} {d : Drawing α} {k : α → Drawing Work} {P : Work → Prop} {outcome : Outcome} {ids : IdSource}

/-- Whatever a drawing comes to has a property. -/
def Comes (d : Drawing Work) (P : Work → Prop) : Prop := ∀ ids work, (d.run.run ids).1 = .ok work → P work

/-- A drawing that asks for no pixels. -/
def Finishes (d : Drawing Work) : Prop := d.Comes fun work => ∃ outcome, work = .done outcome

namespace Comes

theorem pure {work : Work} (h : P work) : (Pure.pure work : Drawing Work).Comes P :=
  fun _ _ same => Except.ok.inj same ▸ h

theorem bind (next : ∀ a, (k a).Comes P) : (d >>= k).Comes P := by
  intro ids work same
  rw [run_bind] at same
  split at same
  · exact next _ _ work same
  · cases same

theorem read {x : Except Failure α} (next : ∀ a, x = .ok a → (k a).Comes P) : (liftM x >>= k).Comes P := by
  intro ids work same
  cases x with
  | error failure => cases same
  | ok a => exact next a rfl ids work same

theorem render {c : Context} {f : Fragment} {size viewport : Extent} {resume : Except RasterFault Picture → Outcome}
    (able : c.canRender = true) (h : P (.paint ⟨f.markup, f.defs, size, size, viewport⟩ resume)) :
    (c.render f size viewport resume).Comes P := by
  rw [Context.render, if_pos able]
  exact .pure h

end Comes

namespace Finishes

theorem done : (Pure.pure (.done outcome) : Drawing Work).Finishes := .pure ⟨outcome, rfl⟩

theorem answer {f : Fragment} : (Drawing.answer f).Finishes := .pure ⟨_, rfl⟩

theorem bind (next : ∀ a, (k a).Finishes) : (d >>= k).Finishes := Comes.bind next

/-- Such a drawing does not miss the back-end. -/
theorem map_unable {d : Drawing Work} (h : d.Finishes) : Work.unable <$> d = d := by
  refine funext fun ids => ?_
  change (Work.unable <$> d).run.run ids = d.run.run ids
  rw [run_map]
  refine Prod.ext ?_ rfl
  cases result : (d.run.run ids).1 with
  | error failure => rfl
  | ok work =>
    obtain ⟨outcome, rfl⟩ := h ids work result
    rfl

end Finishes

end Drawing

/-! ## What operators fall back on -/

/-- The kinds that ask for pixels. -/
def Kind.paints : Kind → Bool
  | .wave | .trace | .pixelate | .layerBlur | .polar => true
  | _ => false

/-- What a node comes to whose input `source` cannot be rendered: a trace draws nothing, a wave is what it is without
an input, and the others pass the input on. -/
def Kind.FallsBack (kind : Kind) (c : Context) (params : Fields) (source : Fragment)
    (r : Except Failure Fragment) : Prop :=
  match kind with
  | .trace => r = .ok .empty
  | .pixelate | .layerBlur | .polar => r = .ok source
  | .wave => Operator.wave c params [] = pure (.done { result := r })
  | _ => False

/-- A request for the pixels of `source`, with what becomes of the failure to get them. -/
structure Kind.Asks (kind : Kind) (c : Context) (params : Fields) (source : Fragment) (request : RasterRequest)
    (resume : Except RasterFault Picture → Outcome) : Prop where
  markup : request.markup = source.markup
  defs : request.defs = source.defs
  viewport : request.viewport = c.resolution
  square : request.height = request.width
  sized : 0 ≤ c.settings.defaultFidelity → 0 ≤ c.side → 0 ≤ request.width.count
  falls : ∀ fault, kind.FallsBack c params source (resume (.error fault)).result
  reports : ∃ text, ∀ fault, (resume (.error fault)).log = [c.warning text fault.message]

/-- What an operator does with a back-end: it is over at once, or asks for the pixels of its input. -/
def Kind.Does (kind : Kind) (c : Context) (params : Fields) (inputs : Inputs) : Work → Prop
  | .done _ => kind.paints = false ∨ inputs.at? "in" = none
  | .paint request resume => ∃ source, inputs.at? "in" = some source ∧ kind.Asks c params source request resume

namespace Operator

variable {kind : Kind} {c : Context} {params : Fields} {inputs : Inputs}

set_option linter.unusedSimpArgs false in
/-- All others read, mint and draw, and are done. -/
theorem finishes_of_kind (h : kind.paints = false) (c : Context) (params : Fields) (inputs : Inputs) :
    (kind.operator c params inputs).Finishes := by
  cases kind
  case wave | trace | pixelate | layerBlur | polar => cases h
  all_goals
    simp only [Kind.operator, rectangle, circle, polygon, wavyRing, beam, path, pen, image, gradient, color,
      brightness, opacity, fill, stroke, gradientFade, glow, neon, softBlur, translate, rotate, scale, union, difference,
      intersection, exclusion, binary, output, onInput]
    repeat' first
      | with_reducible exact Drawing.Finishes.answer
      | with_reducible exact Drawing.Finishes.done
      | with_reducible refine Drawing.Finishes.bind fun _ => ?_
      | split

/-- A fidelity that is given is at least two. -/
theorem fidelity_ge {n : Int} (read : Params.Trace.fidelity.read params = .ok (some n)) : 2 ≤ n := by
  obtain ⟨value, -, same⟩ := bind_eq_ok.mp read
  obtain ⟨v, -, rfl⟩ := Option.map_eq_some_iff.mp (Except.ok.inj same)
  change (2 : Int) ≤ if (if 2 < v then v else 2) < 1024 then (if 2 < v then v else 2) else 1024
  split
  · next above =>
    split
    · exact Int.le_of_lt above
    · decide
  · decide

theorem onInput_comes {draw : Context → Fields → Fragment → Drawing Work}
    (next : ∀ source, inputs.at? "in" = some source → (draw c params source).Comes (kind.Does c params inputs)) :
    (onInput draw c params inputs).Comes (kind.Does c params inputs) := by
  unfold onInput
  split
  · next unconnected => exact .pure (.inr unconnected)
  · next source connected => exact next source connected

section

variable (able : c.canRender = true)

include able

theorem pixelate_comes : (pixelate c params inputs).Comes (Kind.Does .pixelate c params inputs) := by
  refine onInput_comes fun source connected => .read fun pixelSize _ => .read fun side _ => .render able ?_
  refine ⟨source, connected, rfl, rfl, rfl, rfl, fun _ _ => ?_, fun _ => rfl, _, fun _ => rfl⟩
  dsimp only [Extent.count]
  split
  · exact Int.le_trans (by decide) (Int.le_max_left 1 _)
  · decide

theorem layerBlur_comes : (layerBlur c params inputs).Comes (Kind.Does .layerBlur c params inputs) := by
  refine onInput_comes fun source connected => .read fun radius _ => .read fun a _ => .read fun b _ => .render able ?_
  exact ⟨source, connected, rfl, rfl, rfl, rfl, fun _ sized => sized, fun _ => rfl, _, fun _ => rfl⟩

theorem polar_comes : (polar c params inputs).Comes (Kind.Does .polar c params inputs) := by
  refine onInput_comes fun source connected => .read fun mode _ => .read fun x _ => .read fun y _ =>
    .read fun radialScale _ => .read fun angularScale _ => .render able ?_
  exact ⟨source, connected, rfl, rfl, rfl, rfl, fun _ sized => sized, fun _ => rfl, _, fun _ => rfl⟩

theorem trace_comes : (trace c params inputs).Comes (Kind.Does .trace c params inputs) := by
  refine onInput_comes fun source connected => .read fun threshold _ => .read fun fidelity read =>
    .read fun invert _ => .render able ?_
  refine ⟨source, connected, rfl, rfl, rfl, rfl, fun sized _ => ?_, fun _ => rfl, _, fun _ => rfl⟩
  cases fidelity with
  | none => exact sized
  | some n => exact Int.le_trans (by decide) (fidelity_ge read)

theorem wave_comes : (wave c params inputs).Comes (Kind.Does .wave c params inputs) := by
  unfold wave
  refine .read fun waveType h₁ => .read fun generators h₂ => .read fun frequency h₃ => .read fun amplitude h₄ =>
    .read fun threshold h₅ => .read fun softness h₆ => .read fun seed h₇ => ?_
  extract_lets w draw falling
  split
  · next unconnected => exact .pure (.inr unconnected)
  · next source connected =>
    refine .render able ⟨source, connected, rfl, rfl, rfl, rfl, fun _ sized => sized, fun _ => ?_, _, fun _ => rfl⟩
    -- the same parameters are read where nothing is connected, so that the same field is drawn
    change wave c params [] = pure (.done { result := falling })
    simp only [wave, h₁, h₂, h₃, h₄, h₅, h₆, h₇]
    rfl

end

end Operator

/-- With a back-end an operator is over at once, or asks for the pixels of its input. -/
theorem Kind.operator_comes (kind : Kind) {c : Context} (able : c.canRender = true) (params : Fields) (inputs : Inputs) :
    (kind.operator c params inputs).Comes (kind.Does c params inputs) := by
  cases painting : kind.paints with
  | false =>
    intro ids work same
    obtain ⟨outcome, rfl⟩ := Operator.finishes_of_kind painting c params inputs ids work same
    exact .inl painting
  | true =>
    cases kind
    case pixelate => exact Operator.pixelate_comes able
    case layerBlur => exact Operator.layerBlur_comes able
    case polar => exact Operator.polar_comes able
    case trace => exact Operator.trace_comes able
    case wave => exact Operator.wave_comes able
    all_goals cases painting

set_option linter.unusedSimpArgs false in
/-- Without a back-end an operator comes to what it comes to with one that fails. -/
theorem Kind.operator_unable (kind : Kind) (c : Context) (params : Fields) (inputs : Inputs) :
    kind.operator { c with canRender := false } params inputs =
      Work.unable <$> kind.operator { c with canRender := true } params inputs := by
  cases painting : kind.paints with
  | false =>
    rw [(Operator.finishes_of_kind painting _ params inputs).map_unable]
    cases kind
    case wave | trace | pixelate | layerBlur | polar => cases painting
    all_goals rfl
  | true =>
    cases kind
    case wave =>
      simp only [Kind.operator, Operator.wave, map_bind]
      split <;> rfl
    case trace | pixelate | layerBlur | polar =>
      simp only [Kind.operator, Operator.trace, Operator.pixelate, Operator.layerBlur, Operator.polar, Operator.onInput]
      split
      · rfl
      · simp only [map_bind]
        rfl
    all_goals cases painting

/-- What is fallen back on is the same with and without a back-end. -/
theorem Kind.FallsBack.unable {kind : Kind} {c : Context} {params : Fields} {source : Fragment}
    {r : Except Failure Fragment} (falls : kind.FallsBack { c with canRender := true } params source r) :
    kind.FallsBack { c with canRender := false } params source r := by
  cases kind
  case wave =>
    have same := Kind.wave.operator_unable c params []
    exact same.trans (congrArg (Work.unable <$> ·) falls)
  all_goals exact falls

/-- Without a back-end an operator that asks for pixels falls back, and says so. -/
theorem Kind.operator_falls (kind : Kind) {c : Context} (unable : c.canRender = false) (params : Fields)
    {inputs : Inputs} {source : Fragment} (paints : kind.paints = true) (connected : inputs.at? "in" = some source) :
    (kind.operator c params inputs).Comes fun work => ∃ outcome text, work = .done outcome ∧
      kind.FallsBack c params source outcome.result ∧
      outcome.log = [c.warning text RasterFault.notConfigured.message] := by
  obtain ⟨settings, resolution, canRender, node⟩ := c
  obtain rfl : canRender = false := unable
  intro ids work same
  -- The operator does as it would with a back-end that refuses every request.
  rw [kind.operator_unable ⟨settings, resolution, false, node⟩, Drawing.run_map] at same
  cases result : ((kind.operator ⟨settings, resolution, true, node⟩ params inputs).run.run ids).1 with
  | error failure =>
    rw [result] at same
    cases same
  | ok able =>
    rw [result] at same
    obtain rfl := Except.ok.inj same
    have does := kind.operator_comes rfl params inputs ids able result
    cases able with
    | done outcome =>
      rcases does with silent | unconnected
      · rw [paints] at silent
        cases silent
      · rw [connected] at unconnected
        cases unconnected
    | paint request resume =>
      obtain ⟨source', connected', asks⟩ := does
      obtain rfl := Option.some.inj (connected.symm.trans connected')
      obtain ⟨text, reports⟩ := asks.reports
      refine ⟨resume (.error .notConfigured), text, rfl, ?_, reports _⟩
      exact Kind.FallsBack.unable (c := ⟨settings, resolution, true, node⟩) (asks.falls .notConfigured)

/-- An operator that asks for pixels asks for those of its input. -/
theorem Kind.asks_of_paint {kind : Kind} {c : Context} {params : Fields} {inputs : Inputs} {ids : IdSource}
    {request : RasterRequest} {resume : Except RasterFault Picture → Outcome}
    (painted : ((kind.operator c params inputs).run.run ids).1 = .ok (.paint request resume)) :
    ∃ source, inputs.at? "in" = some source ∧ kind.Asks c params source request resume := by
  obtain ⟨settings, resolution, canRender, node⟩ := c
  cases canRender with
  | true => exact kind.operator_comes rfl params inputs ids _ painted
  | false =>
    rw [kind.operator_unable ⟨settings, resolution, false, node⟩, Drawing.run_map] at painted
    cases result : ((kind.operator ⟨settings, resolution, true, node⟩ params inputs).run.run ids).1 with
    | error failure =>
      rw [result] at painted
      cases painted
    | ok work =>
      rw [result] at painted
      cases work <;> cases painted

/-! ## Failures -/

/-- The replies that are pictures. -/
def Replies.pictures (replies : Replies) : Replies := fun request reply =>
  replies request reply ∧ ∃ p, reply = .ok p

/-- The operator of a node fails with the pictures that it gets, or with nothing connected. -/
def Node.FailsUnaided (n : Node) (settings : Settings) (replies : Replies) (resolution : Extent) (inputs : Inputs)
    (failure : Failure) : Prop :=
  ∃ inputs' ids, (inputs' = inputs ∨ inputs' = []) ∧
    Work.Yields replies.pictures (n.perform settings true resolution inputs' ids).1 (.error failure)

theorem Node.perform_unable (n : Node) (settings : Settings) (resolution : Extent) (inputs : Inputs) (ids : IdSource) :
    n.perform settings false resolution inputs ids =
      ((n.perform settings true resolution inputs ids).1.map Work.unable,
        (n.perform settings true resolution inputs ids).2) := by
  unfold Node.perform
  rw [← Drawing.run_map]
  exact congrArg (fun d : Drawing Work => d.run.run ids)
    (n.kind.operator_unable ⟨settings, resolution, true, n.id.nameText⟩ n.params inputs)

/-- What a node falls back on fails only as it does with nothing connected. -/
theorem Kind.FallsBack.fails {n : Node} {settings : Settings} {replies : Replies} {resolution : Extent}
    {inputs : Inputs} {source : Fragment} {failure : Failure}
    (falls : n.kind.FallsBack ⟨settings, resolution, true, n.id.nameText⟩ n.params source (.error failure)) :
    n.FailsUnaided settings replies resolution inputs failure := by
  unfold Kind.FallsBack at falls
  split at falls
  · cases falls
  · cases falls
  · cases falls
  · cases falls
  · next wave =>
    refine ⟨[], default, .inr rfl, ?_⟩
    simp only [Node.perform, wave, Kind.operator, falls]
    rfl
  · exact falls.elim

/-- No operator fails because of a rendering. -/
theorem Node.fails_unaided {n : Node} {settings : Settings} {canRender : Bool} {replies : Replies}
    {resolution : Extent} {inputs : Inputs} {ids : IdSource} {failure : Failure}
    (yields : Work.Yields replies (n.perform settings canRender resolution inputs ids).1 (.error failure)) :
    n.FailsUnaided settings replies resolution inputs failure := by
  -- a request that fails leads to what is fallen back on, and that fails only with nothing connected
  have asks : ∀ request resume, (n.perform settings true resolution inputs ids).1 = .ok (.paint request resume) →
      ∀ fault, (resume (.error fault)).result = .error failure →
        n.FailsUnaided settings replies resolution inputs failure := by
    intro request resume painted fault failed
    obtain ⟨source, -, asks⟩ := n.kind.operator_comes rfl n.params inputs ids _ painted
    have falls := asks.falls fault
    rw [failed] at falls
    exact falls.fails
  have direct : Work.Yields replies.pictures (n.perform settings true resolution inputs ids).1 (.error failure) →
      n.FailsUnaided settings replies resolution inputs failure := fun yields => ⟨inputs, ids, .inl rfl, yields⟩
  cases canRender with
  | true =>
    cases work : (n.perform settings true resolution inputs ids).1 with
    | error cause =>
      rw [work] at yields direct
      exact direct yields
    | ok work' =>
      rw [work] at yields direct
      cases work' with
      | done outcome => exact direct yields
      | paint request resume =>
        obtain ⟨reply, allowed, same⟩ := yields
        cases reply with
        | ok p => exact direct ⟨.ok p, ⟨allowed, p, rfl⟩, same⟩
        | error fault => exact asks request resume work fault same.symm
  | false =>
    rw [n.perform_unable] at yields
    cases work : (n.perform settings true resolution inputs ids).1 with
    | error cause =>
      rw [work] at yields direct
      exact direct yields
    | ok work' =>
      rw [work] at yields direct
      cases work' with
      | done outcome => exact direct yields
      | paint request resume => exact asks request resume work _ yields.symm

end VectorGraph
