import Mathlib.Data.List.Nodup
import VectorGraph.Proofs.Operator.Minting

/-!
Fragments that are derived from others.

A fragment is proper if its markup and its definitions refer to nothing but what these definitions define.
It is derived from its sources if each of its definitions is one of a source or a new one, and the new ones
define ids that were minted for it (`Fragment.Derived`). What an operator adds to its sources is put down
as `Fragment.Extends`, which does not speak of definitions that are merged.
-/
namespace VectorGraph

open Markup

/-! ## Lists without copies -/

theorem nodup_eraseDups (l : List String) : l.eraseDups.Nodup := by
  -- the rest is filtered before it is gone through, so the induction is on the length
  induction h : l.length using Nat.strong_induction_on generalizing l with
  | h n ih =>
    cases l with
    | nil => exact List.nodup_nil
    | cons a rest =>
      rw [List.eraseDups_cons]
      refine List.nodup_cons.mpr ⟨fun mem => ?_, ih _ ?_ _ rfl⟩
      · rw [List.mem_eraseDups, List.mem_filter] at mem
        simp at mem
      · rw [← h]
        exact Nat.lt_succ_of_le (List.length_filter_le _ rest)

/-! ## Texts of trees -/

/-- A text that keeps to the rules and defines `ids`. -/
structure Written (rules : Rules) (ids : List String) (text : String) : Prop where
  sane : Sane rules text
  balanced : Balanced text
  defines : definitions text = ids

namespace Written

variable {rules rules' : Rules} {ids more : List String} {x y : String} {m : Markup}

theorem append (hx : Written rules ids x) (hy : Written rules more y) :
    Written rules (ids ++ more) (x ++ y) := by
  obtain ⟨balanced, defines⟩ := hx.balanced.append hy.balanced
  exact ⟨hx.sane.append hy.sane, balanced, by rw [defines, hx.defines, hy.defines]⟩

theorem of_sound (h : Sound rules m) (ids_eq : m.treeIds = ids) : Written rules ids m.text := by
  obtain ⟨sane, balanced, defines⟩ := h.text
  exact ⟨sane, balanced, defines.trans ids_eq⟩

end Written

/-! ## Fragments -/

namespace Fragment

/-- The ids that the definitions of a fragment define. -/
def defined (f : Fragment) : List String := f.defs.flatMap definitions

/-- The markup defines nothing, and nothing is referred to but what the definitions define. -/
structure Proper (f : Fragment) : Prop where
  markup : Sane ⟨f.defined, true⟩ f.markup
  defs : ∀ d ∈ f.defs, Sane ⟨f.defined, false⟩ d ∧ Balanced d
  distinct : f.defs.Nodup

/-- Definitions whose ids were minted on the way from `ids` to `ids'`. -/
structure Fresh (ids ids' : IdSource) (new : List String) : Prop where
  distinct : (new.flatMap definitions).Nodup
  minted : ∀ x ∈ new.flatMap definitions, IdSource.Minted ids ids' x

/-- A fragment that is made of its sources and of new definitions. -/
structure Derived (sources : List Fragment) (ids ids' : IdSource) (f : Fragment) : Prop where
  proper : f.Proper
  origin : ∃ new, Fresh ids ids' new ∧ ∀ d ∈ f.defs, d ∈ new ∨ ∃ s ∈ sources, d ∈ s.defs

/-- Markup and new definitions that refer to each other and to what the sources define. -/
structure Extends (sources : List Fragment) (ids ids' : IdSource) (markup : String) (new : List String) :
    Prop where
  fresh : Fresh ids ids' new
  markup : Sane ⟨sources.flatMap defined ++ new.flatMap definitions, true⟩ markup
  defs : ∀ d ∈ new, Sane ⟨sources.flatMap defined ++ new.flatMap definitions, false⟩ d ∧ Balanced d

variable {sources sources' : List Fragment} {ids ids' ids'' : IdSource} {f source : Fragment}
  {markup : String} {new more : List String} {m : Markup} {x : String}

namespace Fresh

theorem nil : Fresh ids ids' [] := ⟨List.nodup_nil, fun x h => by cases h⟩

theorem append (h : Fresh ids ids' new) (h' : Fresh ids' ids'' more) (before : ids.Before ids')
    (after : ids'.Before ids'') : Fresh ids ids'' (new ++ more) := by
  refine ⟨?_, fun x hx => ?_⟩
  · rw [List.flatMap_append]
    refine h.distinct.append h'.distinct fun x hx hy => ?_
    exact (h.minted x hx).ne (h'.minted x hy) (Int.le_refl _) rfl
  · rw [List.flatMap_append, List.mem_append] at hx
    rcases hx with hx | hx
    · exact (h.minted x hx).widen (.refl ids) after
    · exact (h'.minted x hx).widen before (.refl ids'')

end Fresh

theorem mem_defined : x ∈ f.defined ↔ ∃ d ∈ f.defs, x ∈ definitions d := List.mem_flatMap

/-- A source is derived from the sources. -/
theorem derived_source (mem : f ∈ sources) (proper : f.Proper) : Derived sources ids ids' f :=
  ⟨proper, [], .nil, fun _ hd => .inr ⟨f, mem, hd⟩⟩

theorem derived_empty : Derived sources ids ids' empty := by
  refine ⟨⟨sane_empty, fun _ hd => ?_, List.nodup_nil⟩, [], .nil, fun _ hd => ?_⟩ <;> cases hd

namespace Extends

/-- The definitions of the sources and the new ones may be merged in any order. -/
theorem derived {defs : List String} (h : Extends sources' ids ids' markup new)
    (among : ∀ s ∈ sources', s ∈ sources) (proper : ∀ s ∈ sources', s.Proper)
    (same : ∀ d, d ∈ defs ↔ d ∈ new ∨ ∃ s ∈ sources', d ∈ s.defs) (distinct : defs.Nodup) :
    Derived sources ids ids' ⟨markup, defs⟩ := by
  have known : ∀ x ∈ sources'.flatMap defined ++ new.flatMap definitions,
      x ∈ (⟨markup, defs⟩ : Fragment).defined := by
    intro x hx
    rw [mem_defined]
    rcases List.mem_append.mp hx with hx | hx
    · obtain ⟨s, hs, hx⟩ := List.mem_flatMap.mp hx
      obtain ⟨d, hd, hx⟩ := mem_defined.mp hx
      exact ⟨d, (same d).mpr (.inr ⟨s, hs, hd⟩), hx⟩
    · obtain ⟨d, hd, hx⟩ := List.mem_flatMap.mp hx
      exact ⟨d, (same d).mpr (.inl hd), hx⟩
  refine ⟨⟨h.markup.mono known id, fun d hd => ?_, distinct⟩, new, h.fresh, fun d hd => ?_⟩
  · rcases (same d).mp hd with hd | ⟨s, hs, hd⟩
    · obtain ⟨sane, balanced⟩ := h.defs d hd
      exact ⟨sane.mono known id, balanced⟩
    · obtain ⟨sane, balanced⟩ := (proper s hs).defs d hd
      refine ⟨sane.mono (fun x hx => ?_) id, balanced⟩
      exact known x (List.mem_append_left _ (List.mem_flatMap.mpr ⟨s, hs, hx⟩))
  · rcases (same d).mp hd with hd | ⟨s, hs, hd⟩
    · exact .inl hd
    · exact .inr ⟨s, among s hs, hd⟩

/-- New definitions refer to ids that are known once it is known what they define. -/
theorem of_defines {news : List String} (defines : new.flatMap definitions = news) (distinct : news.Nodup)
    (minted : ∀ x ∈ news, IdSource.Minted ids ids' x)
    (hm : Sane ⟨sources.flatMap defined ++ news, true⟩ markup)
    (hd : ∀ d ∈ new, Sane ⟨sources.flatMap defined ++ news, false⟩ d ∧ Balanced d) :
    Extends sources ids ids' markup new :=
  ⟨⟨defines ▸ distinct, defines ▸ minted⟩, defines ▸ hm, defines ▸ hd⟩

/-- One new definition may define several ids. -/
theorem one {d : String} {news : List String} (distinct : news.Nodup)
    (minted : ∀ x ∈ news, IdSource.Minted ids ids' x)
    (hm : Sane ⟨sources.flatMap defined ++ news, true⟩ markup)
    (hd : Written ⟨sources.flatMap defined ++ news, false⟩ news d) :
    Extends sources ids ids' markup [d] := by
  refine of_defines (by simp [hd.defines]) distinct minted hm fun e he => ?_
  rw [List.mem_singleton.mp he]
  exact ⟨hd.sane, hd.balanced⟩

/-- Markup that adds nothing. -/
theorem none (hm : Sane ⟨sources.flatMap defined, true⟩ markup) : Extends sources ids ids' markup [] := by
  refine ⟨.nil, hm.mono (fun x hx => List.mem_append_left _ hx) (fun h => h), fun d hd => ?_⟩
  cases hd

/-- Without sources the new definitions are all that there are. -/
theorem alone (h : Extends [] ids ids' markup new) (distinct : new.Nodup) :
    Derived sources ids ids' ⟨markup, new⟩ :=
  h.derived (fun _ hs => by cases hs) (fun _ hs => by cases hs) (fun d => by simp) distinct

/-- Without new definitions those of a source are taken over. -/
theorem keeps (h : Extends [source] ids ids' markup []) (mem : source ∈ sources) (proper : source.Proper) :
    Derived sources ids ids' ⟨markup, source.defs⟩ := by
  refine h.derived (fun s hs => ?_) (fun s hs => ?_) (fun d => by simp) proper.distinct
  · exact List.mem_singleton.mp hs ▸ mem
  · exact List.mem_singleton.mp hs ▸ proper

theorem withDefs (h : Extends [source] ids ids' markup new) (mem : source ∈ sources)
    (proper : source.Proper) : Derived sources ids ids' ⟨markup, source.withDefs new⟩ := by
  refine h.derived (fun s hs => ?_) (fun s hs => ?_) (fun d => ?_) (nodup_eraseDups _)
  · exact List.mem_singleton.mp hs ▸ mem
  · exact List.mem_singleton.mp hs ▸ proper
  · rw [Fragment.withDefs, List.mem_eraseDups, List.mem_append]
    simp [or_comm]

theorem withDefs₂ {other : Fragment} (h : Extends [source, other] ids ids' markup new)
    (mem : source ∈ sources) (mem' : other ∈ sources) (proper : source.Proper) (proper' : other.Proper) :
    Derived sources ids ids' ⟨markup, source.withDefs (other.defs ++ new)⟩ := by
  refine h.derived (fun s hs => ?_) (fun s hs => ?_) (fun d => ?_) (nodup_eraseDups _)
  · simp only [List.mem_cons, List.not_mem_nil, or_false] at hs
    rcases hs with rfl | rfl
    · exact mem
    · exact mem'
  · simp only [List.mem_cons, List.not_mem_nil, or_false] at hs
    rcases hs with rfl | rfl
    · exact proper
    · exact proper'
  · rw [Fragment.withDefs, List.mem_eraseDups, List.mem_append, List.mem_append]
    simp only [List.mem_cons, List.not_mem_nil, or_false, exists_eq_or_imp, exists_eq_left]
    tauto

end Extends

end Fragment

/-! ## Operators -/

/-- Every fragment that may come of some work. -/
def Work.Sends (P : Fragment → Prop) : Work → Prop
  | .done outcome => ∀ f, outcome.result = .ok f → P f
  | .paint _ resume => ∀ reply f, (resume reply).result = .ok f → P f

/-- Whatever comes of the work is derived from the sources and the ids minted since `first`. -/
def Makes (sources : List Fragment) (first : IdSource) (work : Work) (ids : IdSource) : Prop :=
  work.Sends (Fragment.Derived sources first ids)

/-- What an operator makes of proper inputs is derived from them. -/
def Derives (op : Operator) : Prop :=
  ∀ (c : Context) (params : Fields) (inputs : Inputs) (first : IdSource), first.Salted →
    (∀ x ∈ inputs, x.2.Proper) → (op c params inputs).Meets first (Makes (inputs.map (·.2)) first)

variable {sources : List Fragment} {first ids : IdSource} {f : Fragment}

theorem meets_answer (h : Fragment.Derived sources first ids f) :
    (Drawing.answer f).Meets ids (Makes sources first) := by
  refine .pure fun g hg => ?_
  rw [← Except.ok.inj hg]
  exact h

/-- Work that mints nothing is done or goes on with what comes of a rendering. -/
theorem meets_render {c : Context} {size viewport : Extent} {resume : Except RasterFault Picture → Outcome}
    (h : ∀ (reply : Except RasterFault Picture) (g : Fragment), (resume reply).result = .ok g →
      Fragment.Derived sources first ids g) :
    (c.render f size viewport resume).Meets ids (Makes sources first) := by
  unfold Context.render
  split
  · exact .pure h
  · exact .pure (h _)

/-- The input on a socket is one of the inputs. -/
theorem Inputs.mem_of_at? {inputs : Inputs} {socket : String} (h : inputs.at? socket = some f) :
    ∃ x ∈ inputs, x.2 = f := by
  unfold Inputs.at? at h
  obtain ⟨x, hx, rfl⟩ := Option.map_eq_some_iff.mp h
  exact ⟨x, List.mem_of_find?_eq_some hx, rfl⟩

end VectorGraph
