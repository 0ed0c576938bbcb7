import VectorGraph.Contour.Trace
import VectorGraph.Operator.Style
import VectorGraph.Picture.LayerBlur
import VectorGraph.Picture.Polar
import VectorGraph.Wave.Field

/-!
Operators that work on pixels.

When the input cannot be rendered, a trace draws nothing, a wave goes on without its input, and the
others pass their input on; each reports the failure.
-/
namespace VectorGraph.Operator

open Markup

/-- A picture embedded as an image over the square from the origin. -/
def embedded (p : Picture) (resolution : Extent) (pixelated : Bool) : Fragment :=
  ⟨(Markup.image (DataUri.encode p) resolution pixelated).text, []⟩

/-- The outcome for rendered pixels, or a fallback with a warning. -/
def orElse (c : Context) (text : String) (fallback : Unit → Except Failure Fragment)
    (use : Picture → Except Failure Fragment) (reply : Except RasterFault Picture) : Outcome :=
  match reply with
  | .ok p => { result := use p }
  | .error fault => { log := [c.warning text fault.message], result := fallback () }

/-- Renders the input on a coarse grid and draws the grid with hard edges. -/
def pixelate : Operator := onInput fun c params source => do
  let pixelSize ← Params.Pixelate.pixelSize.read params
  let quotient := (← double c.side) / pixelSize
  let size : Int :=
    match FloatView.of quotient with
    | .finite b => max 1 b.truncate
    | _ => 1
  c.render source (.pixels size) c.resolution
    (orElse c "Pixelation failed" (fun _ => .ok source) fun p => .ok (embedded p c.resolution true))

/-- Blurs the input along an axis. -/
def layerBlur : Operator := onInput fun c params source => do
  let radius ← Params.LayerBlur.radius.read params
  let a ← Params.LayerBlur.pointA.read params
  let b ← Params.LayerBlur.pointB.read params
  c.render source c.resolution c.resolution
    (orElse c "Layer Blur rasterization failed" (fun _ => .ok source) fun p => do
      let size ← double c.side
      let place (x y : Float) : Scalar × Scalar := (.real (x * size), .real (y * size))
      return embedded (← LayerBlur.apply p (.real radius) (place a.x a.y) (place b.x b.y)
        c.settings.blurSteps.toNat) c.resolution false)

/-- Remaps the input between rectangular and polar layout. -/
def polar : Operator := onInput fun c params source => do
  let mode ← Params.Polar.mode.read params
  let x ← Params.Polar.x.read params
  let y ← Params.Polar.y.read params
  let radialScale ← Params.Polar.radialScale.read params
  let angularScale ← Params.Polar.angularScale.read params
  c.render source c.resolution c.resolution
    (orElse c "Polar remap rasterization failed" (fun _ => .ok source) fun p =>
      .ok (embedded (Polar.remap p ⟨mode == "polar_to_rect", x, y, radialScale, angularScale⟩)
        c.resolution false))

/-- Draws the outline of the bright part of the input. -/
def trace : Operator := onInput fun c params source => do
  let threshold ← Params.Trace.threshold.read params
  let fidelity ← Params.Trace.fidelity.read params
  let invert ← Params.Trace.invert.read params
  c.render source (.pixels (fidelity.getD c.settings.defaultFidelity)) c.resolution
    (orElse c "Trace node failed to rasterize input" (fun _ => .ok .empty) fun p => do
      let d ← Contour.traceText p c.side threshold invert
      if d = "" then return .empty
      return ⟨(leaf "path" (solid d "white")).text, []⟩)

/-- A white picture with the given opacities. -/
def whitePicture (rows : Array (Array UInt8)) : Picture :=
  .generate (rows[0]?.getD #[]).size rows.size fun x y =>
    ⟨255, 255, 255, (rows[y]?.getD #[])[x]?.getD 0⟩

/-- Waves over a gradient, or over the brightness of the input. -/
def wave : Operator := fun c params inputs => do
  let waveType ← Params.Wave.waveType.read params
  let generators ← Params.Wave.generators.read params
  let frequency ← Params.Wave.frequency.read params
  let amplitude ← Params.Wave.amplitude.read params
  let threshold ← Params.Wave.threshold.read params
  let softness ← Params.Wave.softness.read params
  let seed ← Params.Wave.seed.read params
  let w : Wave Float := {
    oscillators := Wave.drawOscillators seed generators.toNat
    frequency
    amplitude := amplitude / 100
    threshold := .of (threshold / 100) (softness / 100)
    square := waveType == "square" }
  let draw (base : Nat → BaseField Float) : Except Failure Fragment := do
    let size ← Wave.places c.side
    return embedded (whitePicture (← w.alphaRows size (base size))) c.resolution false
  let falling := draw .falling
  match inputs.at? "in" with
  | none => return .done { result := falling }
  | some source =>
    c.render source c.resolution c.resolution
      (orElse c "Wave node input rasterization failed" (fun _ => falling) fun p =>
        draw fun _ => ⟨p.width, p.height, fun x y => (p.pixel x y).luminance⟩)

end VectorGraph.Operator
