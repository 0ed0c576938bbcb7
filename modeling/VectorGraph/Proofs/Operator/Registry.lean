import VectorGraph.Operator.Registry
import VectorGraph.Proofs.Engine.Moves
import VectorGraph.Proofs.Operator.Composition
import VectorGraph.Proofs.Operator.Style

/-!
What operators on pixels make, and what every operator makes.

A rendering is embedded as an image without definitions; when it fails the input is passed on, or nothing is
drawn. With that, whatever the operator of any kind makes is derived from its inputs (`Kind.derives`).
-/
namespace VectorGraph

open Markup Fragment

namespace Operator

variable {sources : List Fragment} {source f : Fragment} {first ids : IdSource} {c : Context}
  {size viewport : Extent} {text : String} {fallback : Unit → Except Failure Fragment}
  {use : Picture → Except Failure Fragment}

theorem derived_embedded (p : Picture) (resolution : Extent) (pixelated : Bool) :
    Derived sources first ids (embedded p resolution pixelated) :=
  derived_tree (sound_image (fit_encode p []))

/-- A rendering is made use of, or there is a fallback. -/
theorem meets_orElse (useful : ∀ p g, use p = .ok g → Derived sources first ids g)
    (otherwise : ∀ g, fallback () = .ok g → Derived sources first ids g) :
    (c.render f size viewport (orElse c text fallback use)).Meets ids (Makes sources first) := by
  refine meets_render fun reply g hg => ?_
  cases reply with
  | ok p => exact useful p g hg
  | error fault => exact otherwise g hg

theorem pixelate_derives : Derives pixelate := by
  refine onInput_derives fun c params source sources first salted mem proper => ?_
  refine .read fun pixelSize _ => .read fun size _ => meets_orElse (fun p g hg => ?_) fun g hg => ?_
  · exact Except.ok.inj hg ▸ derived_embedded p c.resolution true
  · exact Except.ok.inj hg ▸ derived_source mem proper

theorem layerBlur_derives : Derives layerBlur := by
  refine onInput_derives fun c params source sources first salted mem proper => ?_
  refine .read fun radius _ => .read fun a _ => .read fun b _ => meets_orElse (fun p g hg => ?_) fun g hg => ?_
  · obtain ⟨size, -, hg⟩ := bind_eq_ok.mp hg
    obtain ⟨blurred, -, hg⟩ := bind_eq_ok.mp hg
    exact Except.ok.inj hg ▸ derived_embedded blurred c.resolution false
  · exact Except.ok.inj hg ▸ derived_source mem proper

theorem polar_derives : Derives polar := by
  refine onInput_derives fun c params source sources first salted mem proper => ?_
  refine .read fun mode _ => .read fun x _ => .read fun y _ => .read fun radialScale _ =>
    .read fun angularScale _ => meets_orElse (fun p g hg => ?_) fun g hg => ?_
  · exact Except.ok.inj hg ▸ derived_embedded _ c.resolution false
  · exact Except.ok.inj hg ▸ derived_source mem proper

theorem trace_derives : Derives trace := by
  refine onInput_derives fun c params source sources first salted mem proper => ?_
  refine .read fun threshold _ => .read fun fidelity _ => .read fun invert _ =>
    meets_orElse (fun p g hg => ?_) fun g hg => ?_
  · obtain ⟨d, hd, hg⟩ := bind_eq_ok.mp hg
    split at hg
    · exact Except.ok.inj hg ▸ derived_empty
    · rw [← Except.ok.inj hg]
      exact derived_tree (sound_leaf (by decide)
        (soundList_solid (Contour.plain_traceText hd) ((plain_of_all (by decide)).fit [])))
  · exact Except.ok.inj hg ▸ derived_empty

theorem wave_derives : Derives wave := by
  intro c params inputs first salted proper
  unfold wave
  refine .read fun waveType _ => .read fun generators _ => .read fun frequency _ => .read fun amplitude _ =>
    .read fun threshold _ => .read fun softness _ => .read fun seed _ => ?_
  extract_lets w draw falling
  have drawn : ∀ (base : Nat → BaseField Float) (g : Fragment), draw base = .ok g →
      Derived (inputs.map (·.2)) first first g := by
    intro base g hg
    obtain ⟨size, -, hg⟩ := bind_eq_ok.mp hg
    obtain ⟨rows, -, hg⟩ := bind_eq_ok.mp hg
    exact Except.ok.inj hg ▸ derived_embedded (whitePicture rows) c.resolution false
  split
  · exact .pure (drawn _)
  · exact meets_orElse (fun p g hg => drawn _ g hg) (drawn _)

end Operator

/-- What a node makes of proper inputs is derived from them, if the source of an image is safe. -/
theorem Kind.derives (kind : Kind) (c : Context) (params : Fields) (inputs : Inputs) (first : IdSource)
    (safe : kind = .image → Operator.SafeSource params) (salted : first.Salted)
    (proper : ∀ x ∈ inputs, x.2.Proper) :
    (kind.operator c params inputs).Meets first (Makes (inputs.map (·.2)) first) := by
  cases kind with
  | rectangle => exact Operator.rectangle_derives c params inputs first salted proper
  | circle => exact Operator.circle_derives c params inputs first salted proper
  | polygon => exact Operator.polygon_derives c params inputs first salted proper
  | wavyRing => exact Operator.wavyRing_derives c params inputs first salted proper
  | beam => exact Operator.beam_derives c params inputs first salted proper
  | path => exact Operator.path_derives c params inputs first salted proper
  | pen => exact Operator.pen_derives c params inputs first salted proper
  | image => exact Operator.image_derives c params inputs first (safe rfl)
  | gradient => exact Operator.gradient_derives c params inputs first salted proper
  | color => exact Operator.color_derives c params inputs first salted proper
  | value => exact Operator.brightness_derives c params inputs first salted proper
  | alpha => exact Operator.opacity_derives c params inputs first salted proper
  | wave => exact Operator.wave_derives c params inputs first salted proper
  | trace => exact Operator.trace_derives c params inputs first salted proper
  | fill => exact Operator.fill_derives c params inputs first salted proper
  | stroke => exact Operator.stroke_derives c params inputs first salted proper
  | gradientFade => exact Operator.gradientFade_derives c params inputs first salted proper
  | glow => exact Operator.glow_derives c params inputs first salted proper
  | neon => exact Operator.neon_derives c params inputs first salted proper
  | softBlur => exact Operator.softBlur_derives c params inputs first salted proper
  | pixelate => exact Operator.pixelate_derives c params inputs first salted proper
  | layerBlur => exact Operator.layerBlur_derives c params inputs first salted proper
  | translate => exact Operator.translate_derives c params inputs first salted proper
  | rotate => exact Operator.rotate_derives c params inputs first salted proper
  | scale => exact Operator.scale_derives c params inputs first salted proper
  | polar => exact Operator.polar_derives c params inputs first salted proper
  | union => exact Operator.union_derives c params inputs first salted proper
  | difference => exact Operator.difference_derives c params inputs first salted proper
  | intersection => exact Operator.intersection_derives c params inputs first salted proper
  | exclusion => exact Operator.exclusion_derives c params inputs first salted proper
  | output => exact Operator.output_derives c params inputs first salted proper

/-- Every fragment that the run of a node comes to is derived from its inputs, and the ids go on. -/
theorem Work.Yields.derived {replies : Replies} {sources : List Fragment} {d : Drawing Work} {first : IdSource}
    {f : Fragment} (meets : d.Meets first (Makes sources first))
    (yields : Work.Yields replies (d.run.run first).1 (.ok f)) :
    Derived sources first (d.run.run first).2 f := by
  cases h : (d.run.run first).1 with
  | error failure =>
    rw [h] at yields
    cases yields
  | ok work =>
    have made := meets.result work h
    rw [h] at yields
    cases work with
    | done outcome => exact made f yields.symm
    | paint request resume =>
      obtain ⟨reply, -, result⟩ := yields
      exact made reply f result.symm

end VectorGraph
