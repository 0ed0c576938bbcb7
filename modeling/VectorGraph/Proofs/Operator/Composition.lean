import VectorGraph.Operator.Composition
import VectorGraph.Proofs.Operator.Sources

/-!
Operators that move their input, and operators that combine two inputs.

A combination puts what it makes of both inputs into a group. Masking mints two ids, and an exclusion masks
twice: what the second mask adds goes on from the ids that the first one leaves (`Extends.append`).
-/
namespace VectorGraph

open Markup

namespace Fragment.Extends

variable {sources : List Fragment} {ids ids' ids'' : IdSource} {x y : String} {new more : List String}

/-- What is added one after another is added together, in a group. -/
theorem append (h : Extends sources ids ids' x new) (h' : Extends sources ids' ids'' y more)
    (before : ids.Before ids') (after : ids'.Before ids'') :
    Extends sources ids ids'' (group [] (x ++ y)).text (new ++ more) := by
  have left : ∀ z ∈ sources.flatMap defined ++ new.flatMap definitions,
      z ∈ sources.flatMap defined ++ (new ++ more).flatMap definitions := by
    intro z hz
    simp only [List.flatMap_append, List.mem_append] at hz ⊢
    tauto
  have right : ∀ z ∈ sources.flatMap defined ++ more.flatMap definitions,
      z ∈ sources.flatMap defined ++ (new ++ more).flatMap definitions := by
    intro z hz
    simp only [List.flatMap_append, List.mem_append] at hz ⊢
    tauto
  have first : Sane ⟨sources.flatMap defined ++ (new ++ more).flatMap definitions, true⟩ x :=
    h.markup.mono left fun h => h
  have both := first.append (h'.markup.mono right fun h => h)
  refine ⟨h.fresh.append h'.fresh before after, ?_, fun d hd => ?_⟩
  · exact (sound_group .nil both (both.balanced rfl).1).text.1
  · rcases List.mem_append.mp hd with hd | hd
    · obtain ⟨sane, balanced⟩ := h.defs d hd
      exact ⟨sane.mono left fun h => h, balanced⟩
    · obtain ⟨sane, balanced⟩ := h'.defs d hd
      exact ⟨sane.mono right fun h => h, balanced⟩

/-- The order of the sources does not count. -/
theorem congr {others : List Fragment} (h : Extends sources ids ids' x new)
    (same : ∀ s ∈ sources, s ∈ others) : Extends others ids ids' x new := by
  have known : ∀ z ∈ sources.flatMap defined ++ new.flatMap definitions,
      z ∈ others.flatMap defined ++ new.flatMap definitions := by
    intro z hz
    rcases List.mem_append.mp hz with hz | hz
    · obtain ⟨s, hs, hz⟩ := List.mem_flatMap.mp hz
      exact List.mem_append_left _ (List.mem_flatMap.mpr ⟨s, same s hs, hz⟩)
    · exact List.mem_append_right _ hz
  refine ⟨h.fresh, h.markup.mono known fun h => h, fun d hd => ?_⟩
  obtain ⟨sane, balanced⟩ := h.defs d hd
  exact ⟨sane.mono known fun h => h, balanced⟩

end Fragment.Extends

namespace Operator

open Fragment

variable {rules : Rules} {sources : List Fragment} {source shape : Fragment} {first ids : IdSource}

theorem mem_of_needed {inputs : Inputs} {socket : String} {f : Fragment} (h : needed inputs socket = .ok f) :
    ∃ x ∈ inputs, x.2 = f := by
  unfold needed at h
  split at h
  · next g found =>
    rw [← Except.ok.inj h]
    exact Inputs.mem_of_at? found
  · cases h

/-! ## Moves -/

theorem derived_transformed {transform : String} (ht : Plain transform) (mem : source ∈ sources)
    (proper : source.Proper) : Derived sources first ids (transformed source transform) :=
  derived_group (.plain (by decide) ht .nil) mem proper

theorem translate_derives : Derives translate := by
  intro c params inputs first salted proper
  unfold translate
  refine .read fun x _ => .read fun y _ => .read fun size _ => .read fun source hs => ?_
  obtain ⟨input, hinput, rfl⟩ := mem_of_needed hs
  refine meets_answer (derived_transformed ?_ (List.mem_map_of_mem hinput) (proper input hinput))
  exact plain_append (plain_append (plain_append (plain_append (plain_of_all (by decide))
    (plain_coordinateText _)) (plain_of_all (by decide))) (plain_coordinateText _)) (plain_of_all (by decide))

theorem rotate_derives : Derives rotate := by
  intro c params inputs first salted proper
  unfold rotate
  refine .read fun angle _ => .read fun center hc => .read fun source hs => ?_
  obtain ⟨input, hinput, rfl⟩ := mem_of_needed hs
  refine meets_answer (derived_transformed ?_ (List.mem_map_of_mem hinput) (proper input hinput))
  have middle := plain_ratioText hc
  have blank : Plain " " := plain_of_all (by decide)
  have turn := plain_append (plain_of_all (s := "rotate(") (by decide)) (plain_coordinateText angle)
  exact plain_append (plain_append (plain_append (plain_append (plain_append turn blank) middle) blank) middle)
    (plain_of_all (by decide))

theorem scale_derives : Derives scale := by
  intro c params inputs first salted proper
  unfold scale
  refine .read fun factor _ => .read fun center hc => .read fun source hs => ?_
  obtain ⟨input, hinput, rfl⟩ := mem_of_needed hs
  refine meets_answer (derived_transformed ?_ (List.mem_map_of_mem hinput) (proper input hinput))
  have middle := plain_ratioText hc
  have word := @plain_of_all
  have moved := plain_append (plain_append (plain_append (word (s := "translate(") (by decide)) middle)
    (word (s := ", ") (by decide))) middle
  have scaled := plain_append (plain_append moved (word (s := ") scale(") (by decide)))
    (plain_coordinateText factor)
  exact plain_append (plain_append (plain_append (plain_append (plain_append scaled (word (by decide))) middle)
    (word (by decide))) middle) (word (by decide))

theorem output_derives : Derives output := by
  intro c params inputs first salted proper
  unfold output
  refine .read fun source hs => ?_
  obtain ⟨input, hinput, rfl⟩ := mem_of_needed hs
  exact meets_answer (derived_source (List.mem_map_of_mem hinput) (proper input hinput))

/-! ## Masks -/

theorem sound_coverage {filterId : String} (mem : filterId ∈ rules.known)
    (chars : ∀ c ∈ filterId.toList, isIdChar c = true) (proper : shape.Proper)
    (known : ∀ x ∈ shape.defined, x ∈ rules.known) :
    Sound rules (group [("filter", reference filterId)] shape.markup) :=
  sound_group (.reference (by decide) mem chars .nil) (proper.markup.mono known fun _ => rfl)
    (proper.markup.balanced rfl).1

/-- A mask refers to its filter and to what the shape refers to, and defines its own id only. -/
theorem written_coverageMask {maskId filterId : String} {resolution : Extent} {inverted : Bool}
    (loud : rules.silent = false) (maskChars : ∀ c ∈ maskId.toList, isIdChar c = true)
    (filterChars : ∀ c ∈ filterId.toList, isIdChar c = true) (mem : filterId ∈ rules.known)
    (proper : shape.Proper) (known : ∀ x ∈ shape.defined, x ∈ rules.known) :
    Written rules [maskId] (coverageMask maskId filterId shape resolution inverted).2 := by
  have coverage := sound_coverage mem filterChars proper known
  have white : Sound rules (square [] resolution "white") :=
    sound_square .nil ((plain_of_all (by decide)).fit _)
  have coverageIds : (group [("filter", reference filterId)] shape.markup).treeIds = [] := by
    rw [treeIds_group, (proper.markup.balanced rfl).2]
    simp [idsOf]
  have whiteIds : (square [] resolution "white").treeIds = [] := by
    unfold square
    rw [treeIds_leaf]
    simp [idsOf]
  refine .of_sound (sound_element (by decide) ?_ fun m hm => ?_) ?_
  · exact .named loud maskChars <| .const (by decide) (by decide) <| .const (by decide) (by decide) <|
      .const (by decide) (by decide) <| .plain (by decide) (plain_attributeText resolution) <|
      .plain (by decide) (plain_attributeText resolution) .nil
  · cases inverted <;> simp only [if_true, if_false, Bool.false_eq_true, List.mem_cons,
      List.not_mem_nil, or_false] at hm
    · exact hm ▸ coverage
    · rcases hm with rfl | rfl
      · exact white
      · exact coverage
  · rw [treeIds_element, forestIds_of_forall fun m hm => ?_]
    · simp [idsOf]
    · cases inverted <;> simp only [if_true, if_false, Bool.false_eq_true, List.mem_cons,
        List.not_mem_nil, or_false] at hm
      · exact hm ▸ coverageIds
      · rcases hm with rfl | rfl
        · exact whiteIds
        · exact coverageIds

/-- Markup and definitions that are added to sources on the way from the first ids to the last. -/
def Adds (sources : List Fragment) (first : IdSource) (made : String × List String) (last : IdSource) :
    Prop := Extends sources first last made.1 made.2

theorem meets_masked (salted : first.Salted) (properSource : source.Proper) (properShape : shape.Proper)
    (resolution : Extent) (inverted : Bool) :
    (masked source shape resolution inverted).Meets first (Adds [source, shape] first) := by
  unfold masked
  refine .mint (.mint ?_)
  have before := IdSource.Before.mint first "mask"
  have mask := IdSource.minted_mint first (show isWord "mask" = true by decide)
  have after := IdSource.Before.mint (first.mint "mask").2 "coverage"
  have coverage := IdSource.minted_mint (first.mint "mask").2 (show isWord "coverage" = true by decide)
  generalize (first.mint "mask").1 = maskId at mask ⊢
  generalize (first.mint "mask").2 = middle at before mask after coverage ⊢
  generalize (middle.mint "coverage").1 = filterId at coverage ⊢
  generalize (middle.mint "coverage").2 = last at after coverage ⊢
  have differ : maskId ≠ filterId := mask.ne coverage (Int.le_refl _)
  have maskChars := mask.chars salted
  have filterChars := coverage.chars (before.salted salted)
  have known : ∀ (f : Fragment), f ∈ [source, shape] → ∀ x ∈ f.defined,
      x ∈ [source, shape].flatMap defined ++ [filterId, maskId] :=
    fun f hf x hx => List.mem_append_left _ (List.mem_flatMap.mpr ⟨f, hf, hx⟩)
  have within : ∀ x ∈ [filterId, maskId], x ∈ [source, shape].flatMap defined ++ [filterId, maskId] :=
    fun x hx => List.mem_append_right _ hx
  have word := @plain_of_all
  have filter : Written ⟨[source, shape].flatMap defined ++ [filterId, maskId], false⟩ [filterId]
      (recolorFilter filterId (if inverted then blackMatrix else whiteMatrix)).text := by
    refine written_recolorFilter rfl filterChars (plain_ite ?_ ?_) <;>
      exact plain_colorMatrix (word (by decide)) (word (by decide)) (word (by decide))
  have covers : Written ⟨[source, shape].flatMap defined ++ [filterId, maskId], false⟩ [maskId]
      (coverageMask maskId filterId shape resolution inverted).2 :=
    written_coverageMask rfl maskChars filterChars (within filterId (by simp)) properShape
      (known shape (by simp))
  refine .pure (Extends.of_defines (show _ = [filterId, maskId] from ?_) (by simp [differ.symm])
    (fun x hx => ?_) (sane_group (.reference (by decide) (within maskId (by simp)) maskChars .nil) properSource
      (known source (by simp))) fun d hd => ?_)
  · rw [List.flatMap_cons, List.flatMap_singleton]
    exact congrArg₂ (· ++ ·) filter.defines covers.defines
  · simp only [List.mem_cons, List.not_mem_nil, or_false] at hx
    rcases hx with rfl | rfl
    · exact coverage.widen before (.refl last)
    · exact mask.widen (.refl first) after
  · simp only [List.mem_cons, List.not_mem_nil, or_false] at hd
    rcases hd with rfl | rfl
    · exact ⟨filter.sane, filter.balanced⟩
    · exact ⟨covers.sane, covers.balanced⟩

/-! ## Combinations -/

/-- A combination derives what it makes if it adds to its two inputs. -/
theorem binary_derives {combine : Fragment → Fragment → Extent → Drawing (String × List String)}
    (h : ∀ (a b : Fragment) (resolution : Extent) (first : IdSource), first.Salted → a.Proper → b.Proper →
      (combine a b resolution).Meets first (Adds [a, b] first)) : Derives (binary combine) := by
  intro c params inputs first salted proper
  unfold binary
  refine .read fun a ha => ?_
  obtain ⟨x, hx, rfl⟩ := mem_of_needed ha
  split
  · exact meets_answer (derived_source (List.mem_map_of_mem hx) (proper x hx))
  · next b found =>
    obtain ⟨y, hy, rfl⟩ := Inputs.mem_of_at? found
    refine (h x.2 y.2 c.resolution first salted (proper x hx) (proper y hy)).bind fun made last _ added => ?_
    exact meets_answer (added.withDefs₂ (List.mem_map_of_mem hx) (List.mem_map_of_mem hy) (proper x hx)
      (proper y hy))

theorem union_derives : Derives union := by
  refine binary_derives fun a b resolution first salted ha hb => ?_
  have known : ∀ f ∈ [a, b], ∀ x ∈ f.defined, x ∈ [a, b].flatMap defined :=
    fun f hf x hx => List.mem_flatMap.mpr ⟨f, hf, hx⟩
  exact .pure (Extends.append (.none (ha.markup.mono (known a (by simp)) fun h => h))
    (.none (hb.markup.mono (known b (by simp)) fun h => h)) (.refl first) (.refl first))

theorem difference_derives : Derives difference :=
  binary_derives fun _ _ resolution _ salted ha hb => meets_masked salted ha hb resolution true

theorem intersection_derives : Derives intersection :=
  binary_derives fun _ _ resolution _ salted ha hb => meets_masked salted ha hb resolution false

theorem exclusion_derives : Derives exclusion := by
  refine binary_derives fun a b resolution first salted ha hb => ?_
  refine (meets_masked salted ha hb resolution true).bind fun one middle before added => ?_
  refine (meets_masked (before.salted salted) hb ha resolution true).bind fun other last after added' => ?_
  refine .pure (Extends.append added (added'.congr fun s hs => ?_) before after)
  simp only [List.mem_cons, List.not_mem_nil, or_false] at hs ⊢
  exact hs.symm

end Operator

end VectorGraph
