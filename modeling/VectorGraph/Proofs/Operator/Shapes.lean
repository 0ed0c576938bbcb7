import VectorGraph.Proofs.Markup.Elements
import VectorGraph.Proofs.Operator.Derived

/-!
Shapes have no inputs: what they make is one path, for which a beam defines a gradient.
-/
namespace VectorGraph.Operator

open Markup Fragment

variable {rules : Rules} {sources : List Fragment} {first ids : IdSource} {transform : Option String}
  {attributes : Attributes} {d fill : String}

/-! ## Paths in groups -/

theorem plain_ratioText {a b : Int} {s : String} (h : ratioText a b = .ok s) : Plain s := by
  obtain ⟨x, -, h⟩ := bind_eq_ok.mp h
  rw [← Except.ok.inj h]
  exact plain_coordinateText x

theorem plain_centered {c : Context} {s : String} (h : centered c = .ok s) : Plain s := by
  obtain ⟨center, hc, h⟩ := bind_eq_ok.mp h
  rw [← Except.ok.inj h]
  have plain := plain_ratioText hc
  exact plain_append (plain_append (plain_append (plain_append (plain_of_all (by decide)) plain)
    (plain_of_all (by decide))) plain) (plain_of_all (by decide))

theorem soundList_solid (hd : Plain d) (hf : Fit rules.known fill) : SoundList rules (solid d fill) :=
  .const (by decide) (by decide) <| .plain (by decide) hd <| .fit (by decide) hf .nil

theorem soundList_outlined (hd : Plain d) : SoundList rules (outlined d) :=
  .const (by decide) (by decide) <| .const (by decide) (by decide) <| .plain (by decide) hd <|
    .const (by decide) (by decide) <| .const (by decide) (by decide) .nil

theorem sane_shape (defs : List String) (ht : ∀ t, transform = some t → Plain t)
    (hp : SoundList rules attributes) : Sane rules (shape transform attributes defs).markup := by
  have moved : SoundList rules (given [("transform", transform)]) := by
    cases transform with
    | none => exact .nil
    | some t =>
      have one : SoundList rules [("transform", t)] := .plain (by decide) (ht t rfl) .nil
      exact one
  refine (Sound.text (sound_element (by decide) moved fun m hm => ?_)).1
  rw [List.mem_singleton.mp hm]
  exact sound_leaf (by decide) hp

/-- A shape without definitions is derived from anything. -/
theorem derived_shape (ht : ∀ t, transform = some t → Plain t) (hp : SoundList ⟨[], true⟩ attributes) :
    Derived sources first ids (shape transform attributes []) :=
  Extends.alone (.none (sane_shape [] ht hp)) List.nodup_nil

theorem meets_solid (ht : ∀ t, transform = some t → Plain t) (hd : Plain d) :
    (Drawing.answer (shape transform (solid d "white") [])).Meets ids (Makes sources first) :=
  meets_answer (derived_shape ht (soundList_solid hd ((plain_of_all (by decide)).fit [])))

theorem meets_outlined (hd : Plain d) :
    (Drawing.answer (shape none (outlined d) [])).Meets ids (Makes sources first) :=
  meets_answer (derived_shape (fun t ht => by cases ht) (soundList_outlined hd))

/-! ## Gradients -/

theorem sound_gradientStop {offset opacity color : String} (ho : Plain offset) (hp : Plain opacity)
    (hc : Fit rules.known color) : Sound rules (gradientStop offset opacity color) :=
  sound_leaf (by decide) <| .plain (by decide) ho <| .plain (by decide) hp <| .fit (by decide) hc .nil

theorem treeIds_gradientStop (offset opacity color : String) :
    (gradientStop offset opacity color).treeIds = [] := by
  unfold gradientStop
  rw [treeIds_leaf]
  simp [idsOf]

/-! ## The operators -/

theorem rectangle_derives : Derives rectangle := by
  intro c params inputs first salted proper
  unfold rectangle
  refine .read fun width _ => .read fun height _ => .read fun topLeft _ => .read fun topRight _ =>
    .read fun bottomRight _ => .read fun bottomLeft _ => .read fun scale _ => .read fun d hd =>
    .read fun center _ => meets_solid (fun t ht => ?_) (plain_outlineText hd)
  obtain rfl := Option.some.inj ht
  exact plain_append (plain_append (plain_append (plain_append (plain_of_all (by decide))
    (plain_coordinateText _)) (plain_of_all (by decide))) (plain_coordinateText _)) (plain_of_all (by decide))

theorem circle_derives : Derives circle := by
  intro c params inputs first salted proper
  unfold circle
  refine .read fun width _ => .read fun height _ => .read fun scale _ => .read fun d hd =>
    .read fun transform ht => meets_solid (fun t eq => ?_) (plain_outlineText hd)
  exact Option.some.inj eq ▸ plain_centered ht

theorem polygon_derives : Derives polygon := by
  intro c params inputs first salted proper
  unfold polygon
  refine .read fun points _ => .read fun outer _ => .read fun inner _ => .read fun scale _ =>
    .read fun outline _ => .read fun d hd => .read fun transform ht =>
    meets_solid (fun t eq => ?_) (plain_outlineText hd)
  exact Option.some.inj eq ▸ plain_centered ht

theorem wavyRing_derives : Derives wavyRing := by
  intro c params inputs first salted proper
  unfold wavyRing
  refine .read fun radius _ => .read fun frequency _ => .read fun amplitude _ => .read fun scale _ =>
    .read fun outline _ => .read fun d hd => .read fun transform ht =>
    meets_solid (fun t eq => ?_) (plain_outlineText hd)
  exact Option.some.inj eq ▸ plain_centered ht

theorem beam_derives : Derives beam := by
  intro c params inputs first salted proper
  unfold beam
  refine .read fun length _ => .read fun top _ => .read fun bottom _ => .read fun scale _ =>
    .read fun d hd => .mint (.read fun transform ht => meets_answer ?_)
  have minted := IdSource.minted_mint first (show isWord "beamGrad" = true by decide)
  have chars := minted.chars salted
  have stop : ∀ {offset opacity : String}, Plain offset → Plain opacity →
      Sound ⟨[(first.mint "beamGrad").1], false⟩ (gradientStop offset opacity "white") := fun ho hp =>
    sound_gradientStop ho hp ((plain_of_all (by decide)).fit _)
  refine (Extends.one (List.nodup_singleton _) (fun x hx => List.mem_singleton.mp hx ▸ minted)
    (sane_shape [] (fun t eq => ?_) (soundList_solid (plain_outlineText hd) ?_))
    (.of_sound (sound_element (by decide) ?_ ?_) ?_)).alone (List.nodup_singleton _)
  · exact Option.some.inj eq ▸ plain_centered ht
  · exact fit_reference (List.mem_singleton_self _) chars
  · exact .named rfl chars <| .const (by decide) (by decide) <| .const (by decide) (by decide) <|
      .const (by decide) (by decide) <| .const (by decide) (by decide) .nil
  · simp only [List.forall_mem_cons, List.not_mem_nil, false_imp_iff, implies_true, and_true]
    have word := @plain_of_all
    exact ⟨stop (word (by decide)) (word (by decide)), stop (word (by decide)) (word (by decide)),
      stop (word (by decide)) (word (by decide))⟩
  · rw [treeIds_element, forestIds_of_forall (by simp [treeIds_gradientStop])]
    simp [idsOf]

theorem path_derives : Derives Operator.path := by
  intro c params inputs first salted proper
  unfold Operator.path
  refine .read fun points _ => .read fun tension _ => .read fun inner _ => .read fun outer _ => ?_
  dsimp only
  split
  · exact .read fun size _ => .pureBind <| .read fun d hd => meets_outlined (plain_outlineText hd)
  · exact .read fun placed _ => .read fun d hd => meets_outlined (plain_outlineText hd)

theorem pen_derives : Derives pen := by
  intro c params inputs first salted proper
  unfold pen
  exact .read fun points _ => .read fun anchors _ => .read fun outline _ => .read fun d hd =>
    meets_outlined (plain_outlineText hd)

end VectorGraph.Operator
