import VectorGraph.Operator.Sources
import VectorGraph.Proofs.Operator.Shapes
import VectorGraph.Proofs.Picture.Plain

/-!
Operators that fill the picture, or wrap their input into a group.

An image is the only operator that writes a text of its parameters as it is. It is derived from its sources
if the text holds no quote and never says `url(#` (`SafeSource`).
-/
namespace VectorGraph.Operator

open Markup Fragment

variable {rules : Rules} {sources : List Fragment} {source f : Fragment} {first ids : IdSource}
  {attributes : Attributes} {id matrix : String} {m : Markup}

/-! ## Pictures without definitions -/

theorem derived_tree (h : Sound ⟨[], true⟩ m) : Derived sources first ids ⟨m.text, []⟩ :=
  Extends.alone (.none h.text.1) List.nodup_nil

theorem plain_rgbText (r g b : Int) : Plain (rgbText r g b) := by
  have comma : Plain "," := plain_of_all (by decide)
  have two := plain_append (plain_append (plain_append (plain_of_all (s := "rgb(") (by decide))
    (plain_toString r)) comma) (plain_toString g)
  exact plain_append (plain_append (plain_append two comma) (plain_toString b)) (plain_of_all (by decide))

/-- The source of an image can be written between quotes without a reference. -/
def SafeSource (params : Fields) : Prop :=
  ∀ source, Params.Image.imageSrc.read params = .ok source →
    '"' ∉ source.toList ∧ ¬ opening <:+: source.toList

theorem image_derives (c : Context) (params : Fields) (inputs : Inputs) (first : IdSource)
    (safe : SafeSource params) :
    (image c params inputs).Meets first (Makes (inputs.map (·.2)) first) := by
  unfold image
  refine .read fun source hs => ?_
  obtain ⟨unquoted, absent⟩ := safe source hs
  split
  · exact meets_answer derived_empty
  · split
    · exact meets_answer (derived_tree (sound_image (fit_of_absent unquoted absent)))
    · refine .pure fun g hg => ?_
      rw [← Except.ok.inj hg]
      exact derived_empty

theorem brightness_derives : Derives brightness := by
  intro c params inputs first salted proper
  unfold brightness
  exact .read fun value _ => meets_answer (derived_tree (sound_square .nil ((plain_rgbText _ _ _).fit _)))

/-! ## Gradients -/

theorem fit_color {s : String} (h : isHexColor s = true) (known : List String) : Fit known s := by
  have letters : ∀ c ∈ s.toList, c ≠ '"' ∧ c ≠ 'u' := by
    unfold isHexColor at h
    split at h
    · next rest text =>
      rw [Bool.and_eq_true] at h
      have digits := List.all_eq_true.mp h.1
      have hex : ∀ c, isHexDigit c = true → c ≠ '"' ∧ c ≠ 'u' := by
        intro c hc
        constructor <;> rintro rfl <;> exact absurd hc (by decide)
      have within : ∀ c ∈ rest, isHexDigit c = true ∨ c = '\n' := by
        intro c mem
        by_cases last : rest.getLast? = some '\n'
        · rw [if_pos last] at digits
          have split := List.dropLast_append_getLast? _ last
          rw [← split, List.mem_append, List.mem_singleton] at mem
          exact mem.imp_left (digits c)
        · rw [if_neg last] at digits
          exact .inl (digits c mem)
      intro c mem
      rw [text] at mem
      rcases List.mem_cons.mp mem with rfl | mem
      · decide
      · rcases within c mem with hc | rfl
        · exact hex c hc
        · decide
    · cases h
  refine fit_of_absent (fun mem => (letters _ mem).1 rfl) fun found => ?_
  exact (letters 'u' (found.subset (by decide))).2 rfl

theorem fit_readStop {entry : Json} {stop : Stop} (h : readStop entry = .ok (some stop))
    (known : List String) : Fit known stop.color := by
  obtain ⟨offset, -, h⟩ := bind_eq_ok.mp h
  cases offset with
  | none => cases h
  | some offset =>
    obtain ⟨opacity, -, h⟩ := bind_eq_ok.mp h
    obtain rfl := Option.some.inj (Except.ok.inj h)
    have black : Fit known "#000000" := fit_color (by decide) known
    dsimp only
    split
    · split
      · next hex => exact fit_color hex known
      · exact black
    · exact black

theorem fit_readStops {raw : List Json} {stops : List Stop} (h : readStops raw = .ok stops)
    (known : List String) : ∀ s ∈ stops, Fit known s.color := by
  obtain ⟨read, hread, h⟩ := bind_eq_ok.mp h
  obtain rfl := Except.ok.inj h
  intro s mem
  rw [List.mem_mergeSort, List.mem_filterMap] at mem
  obtain ⟨entry, hentry, rfl⟩ := mem
  obtain ⟨json, -, hjson⟩ := exists_of_mem_mapM hread (some s) hentry
  exact fit_readStop hjson known

theorem gradient_derives : Derives gradient := by
  intro c params inputs first salted proper
  unfold gradient
  refine .read fun raw _ => .read fun x _ => .read fun y _ => .read fun power _ => .read fun found hf => ?_
  extract_lets dx draw
  have minted := IdSource.minted_mint first (show isWord "grad" = true by decide)
  have chars := minted.chars salted
  have drawn : ∀ stops : List Stop, (∀ s ∈ stops, Fit [(first.mint "grad").1] s.color) →
      (draw stops).Meets first (Makes (inputs.map (·.2)) first) := by
    intro stops colors
    refine .mint (meets_answer ?_)
    refine (Extends.one (List.nodup_singleton _) (fun x hx => List.mem_singleton.mp hx ▸ minted)
      (sound_square .nil (fit_reference (List.mem_singleton_self _) chars)).text.1
      (.of_sound (sound_element (by decide) ?_ fun m hm => ?_) ?_)).alone (List.nodup_singleton _)
    · exact .named rfl chars <| .plain (by decide) (plain_coordinateText _) <|
        .plain (by decide) (plain_coordinateText _) <| .plain (by decide) (plain_coordinateText _) <|
        .plain (by decide) (plain_coordinateText _) .nil
    · obtain ⟨s, hs, rfl⟩ := List.mem_map.mp hm
      exact sound_gradientStop (plain_append (plain_coordinateText _) (plain_of_all (by decide)))
        (plain_coordinateText _) (colors s hs)
    · rw [treeIds_element, forestIds_of_forall (by simp [treeIds_gradientStop])]
      simp [idsOf]
  split
  · exact .read fun stops hs => drawn stops (fit_readStops hs _)
  · exact .pureBind (drawn found (fit_readStops hf _))

/-! ## Groups -/

/-- A source in a group, with new definitions or without. -/
theorem sane_group (ha : SoundList rules attributes) (proper : source.Proper)
    (known : ∀ x ∈ source.defined, x ∈ rules.known) :
    Sane rules (group attributes source.markup).text :=
  (sound_group ha (proper.markup.mono known fun _ => rfl) (proper.markup.balanced rfl).1).text.1

/-- A source in a group with plain attributes. -/
theorem derived_group (ha : SoundList ⟨source.defined, true⟩ attributes) (mem : source ∈ sources)
    (proper : source.Proper) :
    Derived sources first ids ⟨(group attributes source.markup).text, source.defs⟩ := by
  refine Extends.keeps (.none ?_) mem proper
  rw [List.flatMap_singleton]
  exact sane_group ha proper fun x hx => hx

/-- A source in a group that refers to a new definition. -/
theorem derived_referring {name d : String} (hn : isQuiet name = true) (salted : first.Salted)
    (minted : IdSource.Minted first ids id)
    (hd : Written ⟨source.defined ++ [id], false⟩ [id] d) (mem : source ∈ sources) (proper : source.Proper) :
    Derived sources first ids
      ⟨(group [(name, reference id)] source.markup).text, source.withDefs [d]⟩ := by
  have known : [source].flatMap defined = source.defined := List.flatMap_singleton _ _
  refine (Extends.one (List.nodup_singleton id) (fun x hx => List.mem_singleton.mp hx ▸ minted)
    (sane_group (.reference hn ?_ (minted.chars salted) .nil) proper fun x hx => ?_) (known ▸ hd)).withDefs
    mem proper
  · exact List.mem_append_right _ (List.mem_singleton_self id)
  · exact List.mem_append_left _ (known ▸ hx)

theorem written_recolorFilter (loud : rules.silent = false) (chars : ∀ c ∈ id.toList, isIdChar c = true)
    (hm : Plain matrix) : Written rules [id] (recolorFilter id matrix).text := by
  refine .of_sound (sound_element (by decide) (.named loud chars .nil) fun m hm' => ?_) ?_
  · rw [List.mem_singleton.mp hm']
    exact sound_leaf (by decide) <| .const (by decide) (by decide) <| .const (by decide) (by decide) <|
      .plain (by decide) hm .nil
  · unfold recolorFilter
    rw [treeIds_element, forestIds_of_forall fun m hm' => ?_]
    · simp [idsOf]
    · rw [List.mem_singleton.mp hm', treeIds_leaf]
      simp [idsOf]

theorem plain_colorMatrix {r g b : String} (hr : Plain r) (hg : Plain g) (hb : Plain b) :
    Plain (colorMatrix r g b) := by
  have start := plain_append (plain_of_all (s := "0 0 0 0 ") (by decide)) hr
  have two := plain_append (plain_append start (plain_of_all (s := " 0 0 0 0 ") (by decide))) hg
  exact plain_append (plain_append (plain_append two (plain_of_all (by decide))) hb) (plain_of_all (by decide))

theorem color_derives : Derives color := by
  intro c params inputs first salted proper
  unfold color
  refine .read fun r _ => .read fun g _ => .read fun b _ => ?_
  split
  · exact meets_answer (derived_tree (sound_square .nil ((plain_rgbText _ _ _).fit _)))
  · next source found =>
    obtain ⟨x, hx, rfl⟩ := Inputs.mem_of_at? found
    refine .read fun red hr => .read fun green hg => .read fun blue hb => .mint (meets_answer ?_)
    have minted := IdSource.minted_mint first (show isWord "color" = true by decide)
    exact derived_referring (by decide) salted minted
      (written_recolorFilter rfl (minted.chars salted)
        (plain_colorMatrix (plain_ratioText hr) (plain_ratioText hg) (plain_ratioText hb)))
      (List.mem_map_of_mem hx) (proper x hx)

theorem opacity_derives : Derives opacity := by
  intro c params inputs first salted proper
  unfold opacity
  refine .read fun value _ => ?_
  have given_ : ∀ known, SoundList ⟨known, true⟩ [("opacity", coordinateText value)] := fun known =>
    .plain (by decide) (plain_coordinateText value) .nil
  split
  · exact meets_answer (derived_tree (sound_square (given_ []) ((plain_of_all (by decide)).fit _)))
  · next source found =>
    obtain ⟨x, hx, rfl⟩ := Inputs.mem_of_at? found
    exact meets_answer (derived_group (given_ _) (List.mem_map_of_mem hx) (proper x hx))

end VectorGraph.Operator
