import Mathlib.Data.List.Pairwise
import VectorGraph.Proofs.Engine.InTurn

/-!
Fragments that are handed out are closed.

Where passes follow one another, whatever an evaluator hands out refers to ids that it defines, and defines
no id twice (`Engine.fragments_closed`), although fragments of the cache are mixed with new ones. Every
definition was made by one run of an operator, and the ids of different runs differ.
-/
namespace VectorGraph

open Markup

/-! ## Closed fragments and documents -/

/-- Every reference is to an id that is defined, no definition stands twice, and no id is defined twice. -/
structure Fragment.Closed (f : Fragment) : Prop where
  known : ∀ text ∈ f.markup :: f.defs, ∀ x ∈ references text, x ∈ f.defs.flatMap definitions
  distinct : f.defs.Nodup
  once : (f.defs.flatMap definitions).Nodup

/-- A document refers to ids that it defines, and defines none twice. -/
structure ClosedText (text : String) : Prop where
  known : ∀ x ∈ references text, x ∈ definitions text
  once : (definitions text).Nodup

namespace Fragment.Proper

variable {f : Fragment}

theorem known (h : f.Proper) : ∀ text ∈ f.markup :: f.defs, ∀ x ∈ references text,
    x ∈ f.defs.flatMap definitions := by
  intro text mem
  rcases List.mem_cons.mp mem with rfl | mem
  · exact mem_known_of_scan _ h.markup
  · exact mem_known_of_scan _ (h.defs text mem).1

/-- All definitions in one text. -/
theorem written_join {rules : Rules} : ∀ {defs : List String}, (∀ d ∈ defs, Sane rules d ∧ Balanced d) →
    Written rules (defs.flatMap definitions) (String.join defs)
  | [], _ => ⟨sane_empty, balanced_empty, rfl⟩
  | d :: rest, h => by
    obtain ⟨hd, hr⟩ := List.forall_mem_cons.mp h
    rw [List.flatMap_cons, String.join_cons]
    exact .append ⟨hd.1, hd.2, rfl⟩ (written_join hr)

/-- The document of a proper fragment defines what the fragment defines. -/
theorem written_document (h : f.Proper) (viewport width height : Extent) :
    Written ⟨f.defined, false⟩ f.defined (svgDocument f.markup f.defs viewport width height) := by
  have all := written_join h.defs
  have drawn : Sane ⟨f.defined, false⟩ f.markup := h.markup.mono (fun _ hx => hx) fun silent => by cases silent
  obtain ⟨balanced, silent⟩ := h.markup.balanced rfl
  have view : Plain ("0 0 " ++ viewport.literal ++ " " ++ viewport.literal) :=
    plain_append (plain_append (plain_append (plain_of_all (by decide)) (plain_literal viewport))
      (plain_of_all (by decide))) (plain_literal viewport)
  unfold svgDocument
  refine .of_sound (sound_element (by decide) (.const (by decide) (by decide) <| .plain (by decide) view <|
    .plain (by decide) (plain_attributeText width) <| .plain (by decide) (plain_attributeText height) .nil)
    fun m hm => ?_) ?_
  · rcases List.mem_append.mp hm with hm | hm
    · split at hm
      · cases hm
      · rw [List.mem_singleton.mp hm]
        refine sound_element (by decide) .nil fun m hm => ?_
        rw [List.mem_singleton.mp hm]
        unfold Sound
        exact ⟨all.sane, all.balanced⟩
    · rw [List.mem_singleton.mp hm]
      unfold Sound
      exact ⟨drawn, balanced⟩
  · -- The markup of a proper fragment defines nothing itself: the ids of the document are those of its definitions.
    have ids : ∀ block : List Markup, forestIds (block ++ [.raw f.markup]) = forestIds block := by
      intro block
      induction block with
      | nil => simp [forestIds, treeIds, silent]
      | cons m rest ih => rw [List.cons_append, forestIds, ih, forestIds]
    rw [treeIds_element, ids]
    cases hdefs : f.defs with
    | nil => simp [idsOf, forestIds, defined, hdefs]
    | cons d rest =>
      rw [hdefs] at all
      have block : forestIds [.element "defs" [] [.raw (String.join (d :: rest))]] = f.defined := by
        simpa [forestIds, treeIds, defined, hdefs, idsOf] using all.defines
      simpa [idsOf] using block

end Fragment.Proper

namespace Engine

variable {e : Engine} {replies : Replies} {draws : Draws}

/-! ## Where definitions come from -/

/-- Definitions that the run of a computation has made, if it has ended with a fragment. -/
def MadeBy (e : Engine) (draws : Draws) (i : Nat) (new : List String) : Prop :=
  ∀ (c : Computation) (f : Fragment), e.computations[i]? = some c → c.stage = .ended (.ok f) →
    Fragment.Fresh (draws i) (e.left draws i c) new ∧ ∀ d ∈ f.defs, d ∈ new ∨ ∃ x ∈ c.inputs, d ∈ x.2.defs

/-- Runs of operators draw different ids. -/
def IdsDiffer (e : Engine) (draws : Draws) : Prop :=
  ∀ (i j : Nat) (c d : Computation), e.Ran i c → e.Ran j d → i ≠ j → ∀ x,
    (draws i).Minted (e.left draws i c) x → ¬ (draws j).Minted (e.left draws j d) x

namespace Ledger

variable (h : Ledger replies draws e)
  (nodes : ∀ (i : Nat) (c : Computation), e.computations[i]? = some c → c.node.Safe)
  (salted : ∀ (i : Nat) (c : Computation), e.Ran i c → (draws i).Salted)

include h nodes salted

theorem exists_made (i : Nat) : ∃ new, e.MadeBy draws i new := by
  by_cases ended : ∃ (c : Computation) (f : Fragment),
      e.computations[i]? = some c ∧ c.stage = .ended (.ok f)
  · obtain ⟨c, f, hc, stage⟩ := ended
    obtain ⟨new, fresh, origin⟩ := ((h.derived nodes salted i c hc).2 f stage).origin
    refine ⟨new, fun c' f' hc' stage' => ?_⟩
    obtain rfl := Option.some.inj (hc.symm.trans hc')
    obtain rfl := Except.ok.inj (Stage.ended.inj (stage.symm.trans stage'))
    refine ⟨fresh, fun d hd => (origin d hd).imp_right ?_⟩
    rintro ⟨s, hs, hd⟩
    obtain ⟨x, hx, rfl⟩ := List.mem_map.mp hs
    exact ⟨x, hx, hd⟩
  · exact ⟨[], fun c f hc stage => absurd ⟨c, f, hc, stage⟩ ended⟩

omit nodes salted in
/-- Every definition of what a computation has ended with was made by a run. -/
theorem exists_maker {news : Nat → List String} (made : ∀ i, e.MadeBy draws i (news i)) (i : Nat) :
    ∀ (c : Computation) (f : Fragment),
    e.computations[i]? = some c → c.stage = .ended (.ok f) → ∀ d ∈ f.defs,
    ∃ (j : Nat) (c' : Computation) (g : Fragment), e.computations[j]? = some c' ∧
      c'.stage = .ended (.ok g) ∧ d ∈ news j := by
  induction i using Nat.strong_induction_on with
  | h i ih =>
    intro c f hc stage d hd
    rcases (made i c f hc stage).2 d hd with new | ⟨x, hx, hd⟩
    · exact ⟨i, c, f, hc, stage, new⟩
    · obtain ⟨j, c', less, hc', stage'⟩ := h.past i c hc x hx
      exact ih j less c' x.2 hc' stage' d hd

/-- Where the runs of operators draw different ids, what a computation has ended with defines no id twice. -/
theorem once (differ : e.IdsDiffer draws) {i : Nat} {c : Computation} {f : Fragment}
    (hc : e.computations[i]? = some c) (stage : c.stage = .ended (.ok f)) (distinct : f.defs.Nodup) :
    (f.defs.flatMap definitions).Nodup := by
  choose news made using h.exists_made nodes salted
  have maker := h.exists_maker made i c f hc stage
  rw [List.nodup_flatMap]
  refine ⟨fun d hd => ?_, distinct.pairwise_of_forall_ne fun d hd d' hd' other x hx hx' => ?_⟩
  · obtain ⟨j, c', g, hc', stage', hd⟩ := maker d hd
    exact (List.nodup_flatMap.mp (made j c' g hc' stage').1.distinct).1 d hd
  · obtain ⟨j, c', g, hc', stage', hd⟩ := maker d hd
    obtain ⟨l, c'', g', hc'', stage'', hd'⟩ := maker d' hd'
    have fresh := (made j c' g hc' stage').1
    have fresh' := (made l c'' g' hc'' stage'').1
    by_cases same : j = l
    · subst same
      have symm : Std.Symm (Function.onFun List.Disjoint definitions) :=
        ⟨fun _ _ apart _ hx hx' => apart hx' hx⟩
      have disjoint := List.Pairwise.forall (List.nodup_flatMap.mp fresh.distinct).2 hd hd' other
      exact disjoint hx hx'
    · have ran : e.Ran j c' := ⟨hc', fun queued => by rw [queued] at stage'; cases stage'⟩
      have ran' : e.Ran l c'' := ⟨hc'', fun queued => by rw [queued] at stage''; cases stage''⟩
      exact differ j l c' c'' ran ran' same x (fresh.minted x (List.mem_flatMap.mpr ⟨d, hd, hx⟩))
        (fresh'.minted x (List.mem_flatMap.mpr ⟨d', hd', hx'⟩))

/-- Where the runs of operators draw different ids, a fragment that a pass holds is closed, and so is the document that
is made of it. -/
theorem closed (differ : e.IdsDiffer draws) {k : Nat} {p : Pass} {v : Label} {f : Fragment}
    (pass : e.passes[k]? = some p) (finished : p.result? v = some (.ok f)) :
    f.Closed ∧ ClosedText (svgDocument f.markup f.defs p.resolution p.resolution p.resolution) := by
  obtain ⟨i, c, hc, stage, -⟩ := h.tasks k p pass _ _ (Pass.result?_eq_some.mp finished)
  have proper := ((h.derived nodes salted i c hc).2 f stage).proper
  have once := h.once nodes salted differ hc stage proper.distinct
  have document := proper.written_document p.resolution p.resolution p.resolution
  refine ⟨⟨proper.known, proper.distinct, once⟩, fun x hx => ?_, ?_⟩
  · rw [document.defines]
    exact mem_known_of_scan _ document.sane x hx
  · rw [document.defines]
    exact once

end Ledger

/-- Ids that are drawn in one line are different ones. -/
theorem Apart.differ {bound : Int} (h : Apart draws bound e) : e.IdsDiffer draws := by
  intro i j c d ran ran' other x minted minted'
  rcases h.apart i j c d ran ran' other with before | before
  · exact minted.ne minted' before rfl
  · exact minted'.ne minted before rfl

theorem Orderly.apart (h : Orderly replies draws e) : ∃ bound, Apart draws bound e := by
  cases h.phase with
  | resting calm apart =>
    have there := List.getElem?_eq_getElem (Nat.lt_of_lt_of_eq Nat.zero_lt_one h.single.symm)
    exact ⟨_, apart _ there⟩
  | running solo unclosed salted apart => exact ⟨_, apart⟩

/-! ## What is handed out -/

/-- Every fragment that a pass returns is closed, and so is the document that is made of it. -/
theorem fragments_closed {settings : Settings} {canRender : Bool} {digest : Digest}
    (run : Reaches (inTurn replies) ((blank settings canRender digest).addEvaluator none) e) {k : Nat}
    {p : Pass} {f : Fragment} (pass : e.passes[k]? = some p) (returned : p.result = some (.ok f)) :
    f.Closed ∧ ClosedText (svgDocument f.markup f.defs p.resolution p.resolution p.resolution) := by
  obtain ⟨draws, orderly⟩ := run.orderly
  obtain ⟨bound, apart⟩ := orderly.apart
  exact orderly.ledger.closed orderly.nodes apart.salted apart.differ pass (orderly.told k p pass _ returned)

/-- An engine whose graph blurs a colour twice. -/
def blurring : Engine :=
  { (blank {} false fun _ => "").addEvaluator none with
    graph :=
      { nodes := [⟨.text "c", .color, []⟩, ⟨.text "a", .softBlur, []⟩, ⟨.text "b", .softBlur, []⟩]
        edges := [⟨.text "c", .text "out", .text "a", .text "in"⟩,
          ⟨.text "a", .text "out", .text "b", .text "in"⟩] } }

/-- The events of a pass for the first blur. -/
def firstBlur : List Event :=
  [.begin 0 (.text "a"), .launch 0 (.text "a"), .begin 0 (.text "c"), .run 0, .deliver 0 (.text "c"),
    .proceed 0 (.text "a"), .run 1, .deliver 0 (.text "a"), .close 0]

/-- The engine when the pass for the first blur is closed. -/
def blurredOnce : Engine := firstBlur.foldl after (blurring.opened (.text "a") (.whole 8) "")

/-- The events of a pass for the second blur, which finds the first one in the cache. -/
def secondBlur : List Event :=
  [.begin 1 (.text "b"), .launch 1 (.text "b"), .begin 1 (.text "a"), .launch 1 (.text "a"),
    .begin 1 (.text "c"), .proceed 1 (.text "a"), .proceed 1 (.text "b"), .run 2, .deliver 1 (.text "b"),
    .close 1]

/-- An old definition and a new one stand together, although both passes have the empty salt. -/
theorem fragments_closed_blurred : ∃ (e : Engine) (p : Pass) (f : Fragment), e.passes[1]? = some p ∧
    p.computed = [.text "b"] ∧ p.ids = ⟨"", 2⟩ ∧ p.result = some (.ok f) ∧ f.Closed := by
  have safe : blurring.graph.Safe := by
    intro node mem kind
    simp only [blurring, List.mem_cons, List.not_mem_nil, or_false] at mem
    rcases mem with rfl | rfl | rfl <;> cases kind
  have unsalted : ∀ c ∈ "".toList, isIdChar c = true := by simp
  have edited : Reaches (inTurn fun _ _ => True) ((blank {} false fun _ => "").addEvaluator none) blurring :=
    .single (.edits ⟨by decide +kernel, safe⟩)
  have first : Reaches (inTurn fun _ _ => True) blurring blurredOnce :=
    .follow (fun _ _ => trivial) firstBlur (opened_reaches ⟨by decide +kernel, unsalted⟩ (by decide))
      (by decide +kernel)
  have second : Reaches (inTurn fun _ _ => True) blurredOnce
      (secondBlur.foldl after (blurredOnce.opened (.text "b") (.whole 8) "")) :=
    .follow (fun _ _ => trivial) secondBlur (opened_reaches ⟨by decide +kernel, unsalted⟩ (by decide +kernel))
      (by decide +kernel)
  have run := (edited.trans first).trans second
  generalize hlast : secondBlur.foldl after (blurredOnce.opened (.text "b") (.whole 8) "") = last at run
  have record : (last.passes[1]?).map (fun p => (p.computed, p.ids, (p.result.bind Except.toOption).isSome)) =
      some ([.text "b"], ⟨"", 2⟩, true) := by
    rw [← hlast]
    decide +kernel
  obtain ⟨p, pass, record⟩ := Option.map_eq_some_iff.mp record
  obtain ⟨computed, record⟩ := Prod.mk.inj record
  obtain ⟨ids, returned⟩ := Prod.mk.inj record
  cases result : p.result with
  | none =>
    rw [result] at returned
    cases returned
  | some r =>
    cases r with
    | error failure =>
      rw [result] at returned
      cases returned
    | ok f => exact ⟨last, p, f, pass, computed, ids, result, (fragments_closed run pass result).1⟩

end Engine

end VectorGraph
