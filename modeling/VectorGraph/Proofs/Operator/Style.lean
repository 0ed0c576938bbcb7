import VectorGraph.Operator.Style
import VectorGraph.Proofs.Markup.Repaint
import VectorGraph.Proofs.Operator.Sources

/-!
Operators that restyle their input.

Fill and stroke put attributes into serialized markup; the others refer to a filter or a mask of their own.
A fade is the only operator with two new ids in one definition.
-/
namespace VectorGraph.Operator

open Markup Fragment

variable {rules : Rules} {sources : List Fragment} {source : Fragment} {first ids : IdSource} {id : String}

/-- What draws on its input derives what it makes from the input. -/
theorem onInput_derives {draw : Context → Fields → Fragment → Drawing Work}
    (h : ∀ (c : Context) (params : Fields) (source : Fragment) (sources : List Fragment) (first : IdSource),
      first.Salted → source ∈ sources → source.Proper →
      (draw c params source).Meets first (Makes sources first)) : Derives (onInput draw) := by
  intro c params inputs first salted proper
  unfold onInput
  split
  · exact meets_answer derived_empty
  · next source found =>
    obtain ⟨x, hx, rfl⟩ := Inputs.mem_of_at? found
    exact h c params x.2 _ first salted (List.mem_map_of_mem hx) (proper x hx)

/-! ## Paint -/

theorem derived_repaint {names : List String} {attributes : String}
    (named : ∀ name ∈ names, '"' ∉ name.toList) (inert : ∀ rules, Inert rules attributes.toList)
    (mem : source ∈ sources) (proper : source.Proper) :
    Derived sources first ids (repaint source names attributes) := by
  refine Extends.keeps (.none ?_) mem proper
  rw [List.flatMap_singleton]
  exact proper.markup.repaint named (inert _)

/-- Three attributes, as fill and stroke write them. -/
theorem inert_three (n₁ n₂ n₃ : String) {v₁ v₂ v₃ text : String}
    (names : [n₁, n₂, n₃].all isQuiet = true) (h₁ : Plain v₁) (h₂ : Plain v₂) (h₃ : Plain v₃)
    (whole : text.toList = n₁.toList ++ '=' :: '"' :: (v₁.toList ++ ['"']) ++ [' '] ++
      (n₂.toList ++ '=' :: '"' :: (v₂.toList ++ ['"'])) ++ [' '] ++
      (n₃.toList ++ '=' :: '"' :: (v₃.toList ++ ['"']))) (rules : Rules) : Inert rules text.toList := by
  have one : ∀ {n v : String}, n ∈ [n₁, n₂, n₃] → Plain v →
      Inert rules (n.toList ++ '=' :: '"' :: (v.toList ++ ['"'])) := by
    intro n v hn hv
    have quiet := List.all_eq_true.mp names n hn
    rw [isQuiet, Bool.and_eq_true, bne_iff_ne] at quiet
    exact .of_plain quiet.1 quiet.2 (List.all_eq_true.mpr hv)
  rw [whole]
  exact ((((one (by simp) h₁).append .blank).append (one (by simp) h₂)).append .blank).append
    (one (by simp) h₃)

theorem fill_derives : Derives fill := by
  refine onInput_derives fun c params source sources first salted mem proper => ?_
  refine .read fun enabled _ => .read fun width _ => meets_answer (derived_repaint (by decide) ?_ mem proper)
  have white : Plain "white" := plain_of_all (by decide)
  have none_ : Plain "none" := plain_of_all (by decide)
  have paint : Plain (if enabled then "white" else "none") := plain_ite white none_
  have stroke : Plain (if 0 < width || !enabled then "white" else "none") := plain_ite white none_
  have shown : Plain (if 0 < width then coordinateText width else "1") :=
    plain_ite (plain_coordinateText width) (plain_of_all (by decide))
  exact inert_three "fill" "stroke" "stroke-width" (by decide) paint stroke shown (by simp)

theorem stroke_derives : Derives stroke := by
  refine onInput_derives fun c params source sources first salted mem proper => ?_
  refine .read fun width _ => .read fun opacity _ =>
    meets_answer (derived_repaint (by decide) ?_ mem proper)
  exact inert_three "stroke" "stroke-width" "stroke-opacity" (by decide) (plain_of_all (s := "white") (by decide))
    (plain_coordinateText width) (plain_coordinateText opacity) (by simp)

/-! ## Filters -/

theorem soundList_filterArea (loud : rules.silent = false) (chars : ∀ c ∈ id.toList, isIdChar c = true)
    (margin size : Nat) : SoundList rules (filterArea id margin size) := by
  have start : Plain ("-" ++ toString margin ++ "%") :=
    plain_append (plain_append (plain_of_all (by decide)) (plain_repr margin)) (plain_of_all (by decide))
  have length : Plain (toString size ++ "%") := plain_append (plain_repr size) (plain_of_all (by decide))
  exact .plain (by decide) start <| .plain (by decide) start <| .named loud chars <|
    .plain (by decide) length <| .plain (by decide) length .nil

theorem idsOf_filterArea (margin size : Nat) : idsOf (filterArea id margin size) = [id] := by
  simp [idsOf, filterArea]

theorem sound_blurStep (deviation : Float) {result : Option String} (hr : ∀ r, result = some r → Plain r) :
    Sound rules (blurStep deviation result) := by
  refine sound_leaf (by decide) ?_
  have two : ∀ rest, SoundList rules rest →
      SoundList rules (("stdDeviation", coordinateText deviation) :: ("in", "SourceGraphic") :: rest) :=
    fun rest h => .plain (by decide) (plain_coordinateText deviation) <| .const (by decide) (by decide) h
  cases result with
  | none => exact two [] .nil
  | some r =>
    have one : SoundList rules [("result", r)] := .plain (by decide) (hr r rfl) .nil
    exact two _ one

theorem sound_mergeNodes {names : List String} (h : ∀ name ∈ names, Plain name) :
    ∀ m ∈ mergeNodes names, Sound rules m := by
  intro m hm
  obtain ⟨name, hname, rfl⟩ := List.mem_map.mp hm
  exact sound_leaf (by decide) (.plain (by decide) (h name hname) .nil)

theorem forestIds_mergeNodes (names : List String) : forestIds (mergeNodes names) = [] := by
  refine forestIds_of_forall fun m hm => ?_
  obtain ⟨name, -, rfl⟩ := List.mem_map.mp hm
  rw [treeIds_leaf]
  simp [idsOf]

theorem treeIds_blurStep (deviation : Float) (result : Option String) :
    (blurStep deviation result).treeIds = [] := by
  unfold blurStep
  rw [treeIds_leaf]
  cases result <;> simp [idsOf, given]

theorem written_glowFilter (loud : rules.silent = false) (chars : ∀ c ∈ id.toList, isIdChar c = true)
    (wide tight intensity : Float) : Written rules [id] (glowFilter id wide tight intensity).text := by
  have word := @plain_of_all
  have named : ∀ names : List String, names.all (fun name => name.toList.all isPlain) = true →
      ∀ name ∈ names, Plain name := fun names h name mem => word (List.all_eq_true.mp h name mem)
  refine .of_sound (sound_element (by decide) (soundList_filterArea loud chars 200 500) ?_) ?_
  · simp only [List.forall_mem_cons, List.not_mem_nil, false_imp_iff, implies_true, and_true]
    refine ⟨sound_blurStep _ fun r hr => ?_, sound_blurStep _ fun r hr => ?_,
      sound_element (by decide) (.const (by decide) (by decide) .nil) (sound_mergeNodes (named _ (by decide))),
      sound_leaf (by decide) <| .const (by decide) (by decide) <| .const (by decide) (by decide) <|
        .const (by decide) (by decide) <| .plain (by decide) ?_ .nil,
      sound_element (by decide) .nil (sound_mergeNodes (named _ (by decide)))⟩
    · exact Option.some.inj hr ▸ word (by decide)
    · exact Option.some.inj hr ▸ word (by decide)
    · exact plain_append (plain_append (word (by decide)) (plain_coordinateText intensity)) (word (by decide))
  · unfold glowFilter
    rw [treeIds_element, idsOf_filterArea, forestIds_of_forall, List.append_nil]
    simp only [List.forall_mem_cons, List.not_mem_nil, false_imp_iff, implies_true, and_true,
      treeIds_blurStep, treeIds_element, treeIds_leaf, forestIds_mergeNodes]
    simp [idsOf]

/-- A source under a filter of its own. -/
theorem derived_filtered {filter : Markup} (salted : first.Salted) (minted : IdSource.Minted first ids id)
    (written : Written ⟨source.defined ++ [id], false⟩ [id] filter.text) (mem : source ∈ sources)
    (proper : source.Proper) : Derived sources first ids (filtered source id filter) :=
  derived_referring (by decide) salted minted written mem proper

theorem glow_derives : Derives glow := by
  refine onInput_derives fun c params source sources first salted mem proper => ?_
  refine .read fun radius _ => .read fun intensity _ => .mint (meets_answer ?_)
  have minted := IdSource.minted_mint first (show isWord "glow" = true by decide)
  exact derived_filtered salted minted (written_glowFilter rfl (minted.chars salted) _ _ _) mem proper

theorem neon_derives : Derives neon := by
  refine onInput_derives fun c params source sources first salted mem proper => ?_
  refine .read fun radius _ => .read fun intensity _ => .mint (meets_answer ?_)
  have minted := IdSource.minted_mint first (show isWord "neon" = true by decide)
  exact derived_filtered salted minted (written_glowFilter rfl (minted.chars salted) _ _ _) mem proper

theorem softBlur_derives : Derives softBlur := by
  refine onInput_derives fun c params source sources first salted mem proper => ?_
  refine .read fun radius _ => .mint (meets_answer ?_)
  have minted := IdSource.minted_mint first (show isWord "blur" = true by decide)
  refine derived_filtered salted minted (.of_sound (sound_element (by decide)
    (soundList_filterArea rfl (minted.chars salted) 50 200) fun m hm => ?_) ?_) mem proper
  · rw [List.mem_singleton.mp hm]
    exact sound_blurStep _ fun r hr => by cases hr
  · rw [treeIds_element, idsOf_filterArea, forestIds_of_forall, List.append_nil]
    intro m hm
    rw [List.mem_singleton.mp hm]
    exact treeIds_blurStep _ _

/-! ## Fading -/

theorem gradientFade_derives : Derives gradientFade := by
  refine onInput_derives fun c params source sources first salted mem proper => ?_
  refine .read fun direction _ => .read fun start _ => .read fun stop _ => .mint (.mint (meets_answer ?_))
  have before := IdSource.Before.mint first "fadeMask"
  have mask := IdSource.minted_mint first (show isWord "fadeMask" = true by decide)
  have after := IdSource.Before.mint (first.mint "fadeMask").2 "fadeGrad"
  have gradient := IdSource.minted_mint (first.mint "fadeMask").2 (show isWord "fadeGrad" = true by decide)
  generalize (first.mint "fadeMask").1 = maskId at mask ⊢
  generalize (first.mint "fadeMask").2 = middle at before mask after gradient ⊢
  generalize (middle.mint "fadeGrad").1 = gradientId at gradient ⊢
  generalize (middle.mint "fadeGrad").2 = last at after gradient ⊢
  have differ : maskId ≠ gradientId := mask.ne gradient (Int.le_refl _)
  have maskChars := mask.chars salted
  have gradientChars := gradient.chars (before.salted salted)
  have known : [source].flatMap defined = source.defined := List.flatMap_singleton _ _
  have within : ∀ x ∈ [gradientId, maskId], x ∈ [source].flatMap defined ++ [gradientId, maskId] :=
    fun x hx => List.mem_append_right _ hx
  have word := @plain_of_all
  refine (Extends.one (show [gradientId, maskId].Nodup by simp [differ.symm]) (fun x hx => ?_)
    (sane_group (.reference (by decide) (within maskId (by simp)) maskChars .nil) proper fun x hx => ?_)
    ?_).withDefs mem proper
  · simp only [List.mem_cons, List.not_mem_nil, or_false] at hx
    rcases hx with rfl | rfl
    · exact gradient.widen before (.refl last)
    · exact mask.widen (.refl first) after
  · exact List.mem_append_left _ (known ▸ hx)
  · change Written _ ([gradientId] ++ [maskId]) _
    refine .append
      (.of_sound (sound_element (by decide) ?_ ?_) ?_) (.of_sound (sound_element (by decide) ?_ ?_) ?_)
    · exact .plain (by decide) (plain_append (plain_append (word (by decide)) (plain_coordinateText _))
        (word (by decide))) <| .named rfl gradientChars .nil
    · simp only [List.forall_mem_cons, List.not_mem_nil, false_imp_iff, implies_true, and_true]
      have white : Fit ([source].flatMap defined ++ [gradientId, maskId]) "white" :=
        (word (by decide)).fit _
      exact ⟨sound_gradientStop (word (by decide)) (plain_coordinateText _) white,
        sound_gradientStop (word (by decide)) (plain_coordinateText _) white⟩
    · rw [treeIds_element, forestIds_of_forall (by simp [treeIds_gradientStop])]
      simp [idsOf]
    · exact .named rfl maskChars .nil
    · intro m hm
      rw [List.mem_singleton.mp hm]
      exact sound_leaf (by decide) <| .const (by decide) (by decide) <| .const (by decide) (by decide) <|
        .const (by decide) (by decide) <| .const (by decide) (by decide) <|
        .reference (by decide) (within gradientId (by simp)) gradientChars .nil
    · rw [treeIds_element, forestIds_of_forall fun m hm => ?_]
      · simp [idsOf]
      · rw [List.mem_singleton.mp hm, treeIds_leaf]
        simp [idsOf]

end VectorGraph.Operator
