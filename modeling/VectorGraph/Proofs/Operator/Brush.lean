import VectorGraph.Operator.Registry
import VectorGraph.Proofs.Markup.Rewriting
import VectorGraph.Proofs.Number.Plain
import VectorGraph.Proofs.Params.Refused

/-!
What fill and stroke do to the forest of their input.

Both replace the attributes of three names in serialized markup. Where the markup is a way to write a forest, what they
make of it is a way to write the forest with these attributes taken out everywhere and the new ones put first into
every drawable element. As the new ones have the same three names, a second brush of the kind leaves no trace of the
first (`brush_repaints`).
-/
namespace VectorGraph.Operator

open Markup

variable {c : Context} {params : Fields} {inputs : Inputs} {source : Fragment} {given : Attributes}

/-- The operators that replace paint. -/
inductive Brush where
  | fill
  | stroke
  deriving DecidableEq, Repr

namespace Brush

def kind : Brush → Kind
  | .fill => .fill
  | .stroke => .stroke

/-- The names of the attributes that are replaced. -/
def names : Brush → List String
  | .fill => ["fill", "stroke", "stroke-width"]
  | .stroke => ["stroke", "stroke-width", "stroke-opacity"]

/-- The attributes that are put in. A disabled fill keeps an outline, so that the shape stays visible. -/
def paint : Brush → Fields → Except Failure Attributes
  | .fill, params => do
    let enabled ← Params.Fill.fillEnabled.read params
    let width ← Params.Fill.strokeWidth.read params
    return [("fill", if enabled then "white" else "none"),
      ("stroke", if 0 < width || !enabled then "white" else "none"),
      ("stroke-width", if 0 < width then coordinateText width else "1")]
  | .stroke, params => do
    let width ← Params.Stroke.width.read params
    let opacity ← Params.Stroke.opacity.read params
    return [("stroke", "white"), ("stroke-width", coordinateText width), ("stroke-opacity", coordinateText opacity)]

variable {brush : Brush}

/-- A value that holds none of the characters with a meaning in markup. -/
def Mild (value : String) : Prop := value.toList.all (fun c => c != '"' && c != '<' && c != '=') = true

instance (value : String) : Decidable (Mild value) := inferInstanceAs (Decidable (_ = true))

theorem mild_coordinateText (x : Float) : Mild (coordinateText x) := by
  refine all_coordinateText (fun c digit => ?_) (by decide) x
  simp only [Bool.and_eq_true, bne_iff_ne]
  refine ⟨⟨?_, ?_⟩, ?_⟩ <;> rintro rfl <;> exact absurd digit (by decide)

theorem Mild.ite {P : Prop} [Decidable P] {s t : String} (hs : Mild s) (ht : Mild t) : Mild (if P then s else t) := by
  split
  · exact hs
  · exact ht

theorem Mild.not_mem {value : String} (h : Mild value) :
    '"' ∉ value.toList ∧ '<' ∉ value.toList ∧ '=' ∉ value.toList := by
  have each : ∀ c ∈ value.toList, c ≠ '"' ∧ c ≠ '<' ∧ c ≠ '=' := by
    simpa [Mild, and_assoc] using h
  exact ⟨fun mem => (each _ mem).1 rfl, fun mem => (each _ mem).2.1 rfl, fun mem => (each _ mem).2.2 rfl⟩

theorem Mild.bare {value : String} (h : Mild value) (names : List String) : Bare names value where
  flat := h.not_mem.2.1
  quiet name _ := fun ⟨c, _, inner⟩ => h.not_mem.2.2 (inner.subset (by simp))

/-- Exactly the attributes that are taken out are put in, with values that are mild. -/
theorem paint_mild (wet : brush.paint params = .ok given) :
    given.map Prod.fst = brush.names ∧ ∀ a ∈ given, Mild a.2 := by
  have white : Mild "white" := by decide
  have none_ : Mild "none" := by decide
  cases brush with
  | fill =>
    obtain ⟨enabled, -, wet⟩ := bind_eq_ok.mp wet
    obtain ⟨width, -, wet⟩ := bind_eq_ok.mp wet
    obtain rfl := Except.ok.inj wet
    refine ⟨rfl, ?_⟩
    simp only [List.forall_mem_cons]
    exact ⟨white.ite none_, white.ite none_, (mild_coordinateText width).ite (by decide), nofun⟩
  | stroke =>
    obtain ⟨width, -, wet⟩ := bind_eq_ok.mp wet
    obtain ⟨opacity, -, wet⟩ := bind_eq_ok.mp wet
    obtain rfl := Except.ok.inj wet
    refine ⟨rfl, ?_⟩
    simp only [List.forall_mem_cons]
    exact ⟨white, mild_coordinateText width, mild_coordinateText opacity, nofun⟩

/-- There is paint unless a parameter is refused. -/
theorem paint_refuses (brush : Brush) (params : Fields) :
    VectorGraph.Refuses (brush.paint params) (Params.refuses brush.kind params) := by
  cases brush with
  | fill =>
    exact ((Params.Fill.fillEnabled.read_refuses params).andThen fun _ _ =>
      (Params.Fill.strokeWidth.read_refuses params).map _).congr
        (by simp [Params.refuses, kind, Params.slots, Slot.refuses])
  | stroke =>
    exact ((Params.Stroke.width.read_refuses params).andThen fun _ _ =>
      (Params.Stroke.opacity.read_refuses params).map _).congr
        (by simp [Params.refuses, kind, Params.slots, Slot.refuses])

/-- The operator repaints its input. -/
theorem operator_eq (input : inputs.at? "in" = some source) (wet : brush.paint params = .ok given) (c : Context) :
    ∃ text : String, (attributesText given).toList = ' ' :: text.toList ∧
      brush.kind.operator c params inputs = Drawing.answer (repaint source brush.names text) := by
  cases brush with
  | fill =>
    obtain ⟨enabled, readEnabled, wet⟩ := bind_eq_ok.mp wet
    obtain ⟨width, readWidth, wet⟩ := bind_eq_ok.mp wet
    obtain rfl := Except.ok.inj wet
    refine ⟨"fill=\"" ++ (if enabled then "white" else "none") ++ "\" stroke=\"" ++
      (if 0 < width || !enabled then "white" else "none") ++ "\" stroke-width=\"" ++
      (if 0 < width then coordinateText width else "1") ++ "\"",
      by simp [attributesText, attributeText, String.join_cons], ?_⟩
    change Operator.fill c params inputs = _
    rw [Operator.fill, onInput, input]
    dsimp only
    rw [readEnabled, readWidth]
    rfl
  | stroke =>
    obtain ⟨width, readWidth, wet⟩ := bind_eq_ok.mp wet
    obtain ⟨opacity, readOpacity, wet⟩ := bind_eq_ok.mp wet
    obtain rfl := Except.ok.inj wet
    refine ⟨"stroke=\"white\" stroke-width=\"" ++ coordinateText width ++ "\" stroke-opacity=\"" ++
      coordinateText opacity ++ "\"", by simp [attributesText, attributeText, String.join_cons], ?_⟩
    change Operator.stroke c params inputs = _
    rw [Operator.stroke, onInput, input]
    dsimp only
    rw [readWidth, readOpacity]
    rfl

/-- The operator writes the repainted forest. -/
theorem operator_writes {forest : Forest} (written : Writes forest source.markup)
    (bare : forest.Each (Bare brush.names)) (input : inputs.at? "in" = some source)
    (wet : brush.paint params = .ok given) (c : Context) :
    ∃ markup, brush.kind.operator c params inputs = Drawing.answer ⟨markup, source.defs⟩ ∧
      Writes (forest.recast (repainted brush.names given)) markup := by
  obtain ⟨text, whole, run⟩ := operator_eq input wet c
  obtain ⟨named, mild⟩ := paint_mild wet
  have words : ∀ name ∈ brush.names, IsWord name := by cases brush <;> decide
  have painted : ∀ a ∈ given, IsWord a.1 ∧ '"' ∉ a.2.toList ∧ '<' ∉ a.2.toList := fun a mem =>
    ⟨words a.1 (named ▸ List.mem_map_of_mem mem), (mild a mem).not_mem.1, (mild a mem).not_mem.2.1⟩
  exact ⟨_, run, written.repaint words whole painted bare⟩

end Brush

/-- Where the input is a way to write a forest, the paint of fill and stroke comes first in every drawable element, the
attributes of these names are gone everywhere else, and nothing else changes. The paint of another brush of the kind
that follows replaces the paint of the first, as if the first had not been. -/
theorem brush_repaints {brush : Brush} {forest : Forest} (written : Writes forest source.markup)
    (bare : forest.Each (Bare brush.names)) (input : inputs.at? "in" = some source)
    (accepted : Params.refuses brush.kind params = false) (c : Context) :
    ∃ given markup, brush.paint params = .ok given ∧ given.map Prod.fst = brush.names ∧
      brush.kind.operator c params inputs = Drawing.answer ⟨markup, source.defs⟩ ∧
      forest? markup = some (forest.recast (repainted brush.names given)) ∧
      ∀ (c' : Context) (params' : Fields) (inputs' : Inputs), Params.refuses brush.kind params' = false →
        inputs'.at? "in" = some ⟨markup, source.defs⟩ →
        ∃ given' after alone, brush.paint params' = .ok given' ∧
          brush.kind.operator c' params' inputs' = Drawing.answer ⟨after, source.defs⟩ ∧
          brush.kind.operator c' params' inputs = Drawing.answer ⟨alone, source.defs⟩ ∧
          forest? after = some (forest.recast (repainted brush.names given')) ∧ forest? after = forest? alone := by
  have sound : ∀ {params}, Params.refuses brush.kind params = false → ∃ given, brush.paint params = .ok given :=
    fun {params} accepted => (brush.paint_refuses params).sure (by simp [accepted])
  obtain ⟨given, wet⟩ := sound accepted
  obtain ⟨named, mild⟩ := Brush.paint_mild wet
  obtain ⟨markup, run, painted⟩ := Brush.operator_writes written bare input wet c
  refine ⟨given, markup, wet, named, run, forest?_eq_some.mpr painted, fun c' params' inputs' accepted' input' => ?_⟩
  obtain ⟨given', wet'⟩ := sound accepted'
  have bare' : (forest.recast (repainted brush.names given)).Each (Bare brush.names) :=
    bare.recast fun named _ each => Bare.repainted (fun a mem => (mild a mem).bare brush.names) each named
  obtain ⟨after, run', painted'⟩ := Brush.operator_writes painted bare' input' wet' c'
  obtain ⟨alone, run'', painted''⟩ := Brush.operator_writes written bare input wet' c'
  -- The second paint takes the first away, and is put where it was: twice recast is once.
  have same : (forest.recast (repainted brush.names given)).recast (repainted brush.names given') =
      forest.recast (repainted brush.names given') := by
    rw [Forest.recast_recast]
    exact congrArg forest.recast (funext₂ fun named' attributes =>
      repainted_repainted named' fun a mem => named ▸ List.mem_map_of_mem mem)
  rw [same] at painted'
  exact ⟨given', after, alone, wet', run', run'', forest?_eq_some.mpr painted',
    (forest?_eq_some.mpr painted').trans (forest?_eq_some.mpr painted'').symm⟩

/-- A group with a fill around a path with a stroke. -/
def sketch : Fragment where
  markup := "<g fill=\"red\"><path stroke-width=\"2\" d=\"M 0 0\" fill=\"blue\"/></g>"

def sketchForest : Forest :=
  .element "g" [("fill", "red")]
    (.element "path" [("stroke-width", "2"), ("d", "M 0 0"), ("fill", "blue")] .nil .nil) .nil

/-- A stroke comes first in the path, in the place of its width, and the fills stay. -/
theorem brush_repaints_sketch :
    Writes sketchForest sketch.markup ∧ sketchForest.Each (Bare Brush.stroke.names) ∧
    Params.refuses .stroke [] = false ∧
    ∃ markup, Kind.stroke.operator ⟨{}, .pixels 8, false, "n"⟩ [] [("in", sketch)] = Drawing.answer ⟨markup, []⟩ ∧
      forest? markup = some (.element "g" [("fill", "red")]
        (.element "path" [("stroke", "white"), ("stroke-width", "1"), ("stroke-opacity", "1"), ("d", "M 0 0"),
          ("fill", "blue")] .nil .nil) .nil) := by
  have written : Writes sketchForest sketch.markup := forest?_eq_some.mp (by decide +kernel)
  have bare : sketchForest.Each (Bare Brush.stroke.names) := by
    have mild : ∀ value ∈ ["red", "2", "M 0 0", "blue"], Bare Brush.stroke.names value := fun value mem =>
      Brush.Mild.bare ((show ∀ value ∈ ["red", "2", "M 0 0", "blue"], Brush.Mild value by decide) value mem) _
    simpa [sketchForest, Forest.Each] using mild
  obtain ⟨given, markup, wet, -, run, read, -⟩ :=
    @brush_repaints [] [("in", sketch)] sketch .stroke sketchForest written bare rfl (by decide)
      ⟨{}, .pixels 8, false, "n"⟩
  obtain rfl : given = [("stroke", "white"), ("stroke-width", "1"), ("stroke-opacity", "1")] :=
    Except.ok.inj (wet.symm.trans (by rfl))
  exact ⟨written, bare, by decide, markup, run, read⟩

end VectorGraph.Operator
