import VectorGraph.Operator.Registry
import VectorGraph.Proofs.Operator.Derived

/-!
Definitions merge like ordered sets, however unions are nested.

What a merge keeps of two lists is determined by three things: it has what they have, once, in the order in which they
have it first (`FirstCopies.unique`). So it does not count whether a list is merged before others are put behind it or
in front of it (`eraseDups_append_left`, `eraseDups_append_right`), and merging is associative. A nesting of unions
therefore comes to the first copies of the definitions of its leaves (`Nesting.draw_eq`), and two nestings over the same
leaves come to the same list. A union whose second socket is open merges nothing: it passes on what it gets, which has
no copies unless a leaf has.
-/
namespace VectorGraph

/-! ## First copies -/

/-- A list has what another has, once each, in the order in which it stands there first. -/
structure FirstCopies (all kept : List String) : Prop where
  mem_iff : ∀ d, d ∈ kept ↔ d ∈ all
  nodup : kept.Nodup
  inOrder : kept.Pairwise fun d d' => all.idxOf d < all.idxOf d'

variable {all kept kept' l m : List String} {d : String}

/-- There is one such list. -/
theorem FirstCopies.unique (h : FirstCopies all kept) (h' : FirstCopies all kept') : kept = kept' := by
  have perm : kept.Perm kept' :=
    (List.perm_ext_iff_of_nodup h.nodup h'.nodup).mpr fun d => (h.mem_iff d).trans (h'.mem_iff d).symm
  exact perm.eq_of_pairwise (fun _ _ _ _ hab hba => absurd hba (Nat.lt_asymm hab)) h.inOrder h'.inOrder

theorem eraseDups_concat (l : List String) (d : String) :
    (l ++ [d]).eraseDups = if d ∈ l then l.eraseDups else l.eraseDups ++ [d] := by
  rw [List.eraseDups_append]
  by_cases h : d ∈ l <;> simp [List.removeAll, List.eraseDups_cons, h]

theorem firstCopies_eraseDups (l : List String) : FirstCopies l l.eraseDups := by
  refine ⟨fun d => List.mem_eraseDups, nodup_eraseDups l, ?_⟩
  -- what comes last in the list comes last or not at all among the first copies
  induction l using List.reverseRecOn with
  | nil => exact .nil
  | append_singleton l d ih =>
    have before : ∀ x ∈ l, (l ++ [d]).idxOf x = l.idxOf x := fun x hx => List.idxOf_append_of_mem hx
    have earlier : l.eraseDups.Pairwise fun x y => (l ++ [d]).idxOf x < (l ++ [d]).idxOf y :=
      ih.imp_of_mem fun {x y} hx hy less => by
        rwa [before x (List.mem_eraseDups.mp hx), before y (List.mem_eraseDups.mp hy)]
    rw [eraseDups_concat]
    split
    · exact earlier
    · next new =>
      refine List.pairwise_append.mpr ⟨earlier, List.pairwise_singleton _ _, fun x hx y hy => ?_⟩
      obtain rfl := List.mem_singleton.mp hy
      have there : x ∈ l := List.mem_eraseDups.mp hx
      calc (l ++ [y]).idxOf x = l.idxOf x := before x there
        _ < l.length := List.idxOf_lt_length_iff.mpr there
        _ ≤ (l ++ [y]).idxOf y := by rw [List.idxOf_append_of_notMem new]; exact Nat.le_add_right _ _

theorem eraseDups_eq_iff : l.eraseDups = kept ↔ FirstCopies l kept :=
  ⟨fun h => h ▸ firstCopies_eraseDups l, fun h => (firstCopies_eraseDups l).unique h⟩

/-- A list without copies is kept as it is. -/
theorem eraseDups_of_nodup (distinct : l.Nodup) : l.eraseDups = l := by
  refine eraseDups_eq_iff.mpr ⟨fun _ => .rfl, distinct, ?_⟩
  refine List.pairwise_iff_getElem.mpr fun i j hi hj less => ?_
  rwa [distinct.idxOf_getElem i hi, distinct.idxOf_getElem j hj]

theorem eraseDups_eraseDups (l : List String) : l.eraseDups.eraseDups = l.eraseDups :=
  eraseDups_of_nodup (nodup_eraseDups l)

/-- Copies in front do not count. -/
theorem eraseDups_append_left (l m : List String) : (l.eraseDups ++ m).eraseDups = (l ++ m).eraseDups := by
  have same : m.removeAll l.eraseDups = m.removeAll l :=
    List.filter_congr fun d _ => by simp [List.mem_eraseDups]
  rw [List.eraseDups_append, List.eraseDups_append, eraseDups_eraseDups, same]

/-- Neither do copies behind. -/
theorem eraseDups_append_right (l m : List String) : (l ++ m.eraseDups).eraseDups = (l ++ m).eraseDups := by
  induction m using List.reverseRecOn with
  | nil => rfl
  | append_singleton m d ih =>
    rw [← List.append_assoc, eraseDups_concat (l ++ m), eraseDups_concat m]
    by_cases there : d ∈ m
    · rw [if_pos there, if_pos (List.mem_append_right l there), ih]
    · rw [if_neg there, ← List.append_assoc, eraseDups_concat, ih]
      simp only [List.mem_append, List.mem_eraseDups]

/-- What is there already adds nothing. -/
theorem eraseDups_append_of_subset (within : m ⊆ l) : (l ++ m).eraseDups = l.eraseDups := by
  have nothing : m.removeAll l = [] := List.filter_eq_nil_iff.mpr fun d hd => by simp [within hd]
  rw [List.eraseDups_append, nothing, List.eraseDups_nil, List.append_nil]

/-! ## Nestings -/

/-- The fragment that work comes to where nothing is rendered. -/
def Work.fragment : Work → Except Failure Fragment
  | .done outcome => outcome.result
  | .paint _ resume => (resume (.error .notConfigured)).result

/-- Unions nested over fragments. Every union has a context and parameters of its own, and its second socket may be
open. -/
inductive Nesting where
  | leaf (f : Fragment)
  | alone (c : Context) (params : Fields) (a : Nesting)
  | both (c : Context) (params : Fields) (a b : Nesting)

namespace Nesting

/-- The fragments that are united, in order. -/
def leaves : Nesting → List Fragment
  | leaf f => [f]
  | alone _ _ a => a.leaves
  | both _ _ a b => a.leaves ++ b.leaves

/-- The operators of the unions run, each on what the ones below it come to. -/
def draw : Nesting → Drawing Fragment
  | leaf f => pure f
  | alone c params a => do
    let x ← a.draw
    (← Kind.union.operator c params [("a", x)]).fragment
  | both c params a b => do
    let x ← a.draw
    let y ← b.draw
    (← Kind.union.operator c params [("a", x), ("b", y)]).fragment

/-- The definitions of the leaves, one after another. -/
def given (t : Nesting) : List String := t.leaves.flatMap (·.defs)

end Nesting

namespace Operator

variable {inputs : Inputs} {a b : Fragment}

theorem union_eq_first (c : Context) (params : Fields) (first : inputs.at? "a" = some a)
    (second : inputs.at? "b" = none) : Kind.union.operator c params inputs = Drawing.answer a := by
  change union c params inputs = _
  simp only [union, binary, needed, first, second]
  rfl

theorem union_eq_both (c : Context) (params : Fields) (first : inputs.at? "a" = some a)
    (second : inputs.at? "b" = some b) :
    Kind.union.operator c params inputs =
      Drawing.answer ⟨(Markup.group [] (a.markup ++ b.markup)).text, a.withDefs b.defs⟩ := by
  change union c params inputs = _
  simp only [union, binary, needed, first, second]
  exact congrArg (fun defs => Drawing.answer ⟨_, a.withDefs defs⟩) (List.append_nil b.defs)

end Operator

namespace Nesting

open Operator

theorem length_leaves_pos (t : Nesting) : 0 < t.leaves.length := by
  induction t with
  | leaf f => exact Nat.zero_lt_one
  | alone c params a ih => exact ih
  | both c params a b iha ihb =>
    rw [leaves, List.length_append]
    exact Nat.add_pos_left iha _

/-- A nesting comes to a fragment, and mints no id on the way. Its definitions are those of the leaves, merged if there
are several leaves. -/
theorem draw_eq (t : Nesting) :
    ∃ markup, t.draw = pure ⟨markup, if 2 ≤ t.leaves.length then t.given.eraseDups else t.given⟩ := by
  induction t with
  | leaf f => exact ⟨f.markup, by simp [draw, given, leaves]⟩
  | alone c params a ih =>
    obtain ⟨markup, below⟩ := ih
    refine ⟨markup, ?_⟩
    rw [draw, below, pure_bind, union_eq_first c params rfl rfl]
    rfl
  | both c params a b iha ihb =>
    obtain ⟨x, left⟩ := iha
    obtain ⟨y, right⟩ := ihb
    refine ⟨(Markup.group [] (x ++ y)).text, ?_⟩
    have several : 2 ≤ (both c params a b).leaves.length := by
      rw [leaves, List.length_append]
      exact Nat.add_le_add a.length_leaves_pos b.length_leaves_pos
    have merged : (both c params a b).given.eraseDups =
        ((if 2 ≤ a.leaves.length then a.given.eraseDups else a.given) ++
          if 2 ≤ b.leaves.length then b.given.eraseDups else b.given).eraseDups := by
      have parts : (both c params a b).given = a.given ++ b.given := List.flatMap_append
      rw [parts]
      split <;> split <;> simp only [eraseDups_append_left, eraseDups_append_right]
    rw [if_pos several, merged, draw, left, pure_bind, right, pure_bind, union_eq_both c params rfl rfl]
    rfl

/-- If there are several leaves, or if no leaf has copies, a nesting comes to the first copies of what its leaves
have. -/
theorem draw_firstCopies {t : Nesting} (merges : 2 ≤ t.leaves.length ∨ ∀ f ∈ t.leaves, f.defs.Nodup) :
    ∃ f, t.draw = pure f ∧ FirstCopies t.given f.defs := by
  obtain ⟨markup, run⟩ := t.draw_eq
  refine ⟨_, run, eraseDups_eq_iff.mp ?_⟩
  dsimp only
  split
  · rfl
  · next alone =>
    have distinct := merges.resolve_left alone
    have pos := t.length_leaves_pos
    obtain ⟨f, one⟩ := List.length_eq_one_iff.mp (show t.leaves.length = 1 by omega)
    have own : t.given = f.defs := by rw [given, one, List.flatMap_singleton]
    exact eraseDups_of_nodup (own ▸ distinct f (one ▸ List.mem_singleton_self f))

end Nesting

/-- A merge keeps the first copies of both lists and nothing else. It is associative, and merging again what has been
merged changes nothing. Nestings of unions over the same leaves in the same order come to the same definitions, the
first copies of those of the leaves, if there are several leaves or if they have no copies themselves. -/
theorem definitions_merge :
    (∀ (f : Fragment) (extra kept : List String), f.withDefs extra = kept ↔ FirstCopies (f.defs ++ extra) kept) ∧
    (∀ (f g : Fragment) (extra : List String),
      { g with defs := f.withDefs g.defs }.withDefs extra = f.withDefs (g.withDefs extra)) ∧
    (∀ (f : Fragment) (extra : List String),
      f.withDefs (f.withDefs extra) = f.withDefs extra ∧
      { f with defs := f.withDefs extra }.withDefs extra = f.withDefs extra ∧
      { f with defs := f.withDefs extra }.withDefs (f.withDefs extra) = f.withDefs extra) ∧
    (∀ f : Fragment, f.defs.Nodup → f.withDefs f.defs = f.defs) ∧
    ∀ s t : Nesting, s.leaves = t.leaves → (2 ≤ t.leaves.length ∨ ∀ f ∈ t.leaves, f.defs.Nodup) →
      ∃ f g, s.draw = pure f ∧ t.draw = pure g ∧ f.defs = g.defs ∧
        FirstCopies (t.leaves.flatMap (·.defs)) f.defs := by
  refine ⟨fun f extra kept => eraseDups_eq_iff, fun f g extra => ?_, fun f extra => ⟨?_, ?_, ?_⟩, fun f distinct => ?_,
    fun s t same merges => ?_⟩
  · simp only [Fragment.withDefs, eraseDups_append_left, eraseDups_append_right, List.append_assoc]
  · calc (f.defs ++ (f.defs ++ extra).eraseDups).eraseDups
        = (f.defs ++ f.defs ++ extra).eraseDups := by rw [eraseDups_append_right, List.append_assoc]
      _ = (f.defs ++ extra).eraseDups := by
        rw [← eraseDups_append_left, eraseDups_append_of_subset (List.Subset.refl _), eraseDups_append_left]
  · exact (eraseDups_append_left _ _).trans (eraseDups_append_of_subset (List.subset_append_right _ _))
  · exact (eraseDups_append_of_subset (List.Subset.refl _)).trans (eraseDups_eraseDups _)
  · exact (eraseDups_append_of_subset (List.Subset.refl _)).trans (eraseDups_of_nodup distinct)
  · obtain ⟨f, run, first⟩ := Nesting.draw_firstCopies (t := s) (same ▸ merges)
    obtain ⟨g, run', first'⟩ := Nesting.draw_firstCopies merges
    rw [Nesting.given, same] at first
    exact ⟨f, g, run, run', first.unique first', first⟩

/-- Three leaves that share definitions, united from the left and from the right. -/
theorem definitions_merge_overlapping :
    ∃ (c : Context) (x y z f g : Fragment), x.defs = ["p", "q"] ∧ y.defs = ["q", "r", "r"] ∧ z.defs = ["s", "p"] ∧
      (Nesting.both c [] (.both c [] (.leaf x) (.leaf y)) (.leaf z)).draw = pure f ∧
      (Nesting.both c [] (.leaf x) (.both c [] (.leaf y) (.alone c [] (.leaf z)))).draw = pure g ∧
      f.defs = ["p", "q", "r", "s"] ∧ g.defs = f.defs ∧ ({ x with defs := ["p"] }).withDefs ["p"] = ["p"] := by
  let c : Context := ⟨{}, .pixels 8, false, "n"⟩
  let x : Fragment := ⟨"x", ["p", "q"]⟩
  let y : Fragment := ⟨"y", ["q", "r", "r"]⟩
  let z : Fragment := ⟨"z", ["s", "p"]⟩
  obtain ⟨-, -, -, same, nested⟩ := definitions_merge
  obtain ⟨f, g, run, run', equal, first⟩ := nested (.both c [] (.both c [] (.leaf x) (.leaf y)) (.leaf z))
    (.both c [] (.leaf x) (.both c [] (.leaf y) (.alone c [] (.leaf z)))) rfl (.inl (by decide))
  refine ⟨c, x, y, z, f, g, rfl, rfl, rfl, run, run', ?_, equal.symm, same ⟨"x", ["p"]⟩ (by simp)⟩
  exact first.unique (eraseDups_eq_iff.mp (by decide))

/-- A union whose second socket is open, over a leaf with copies. -/
def loneUnion : Nesting := .alone ⟨{}, .pixels 300, false, "n"⟩ [] (.leaf ⟨"<path/>", ["<filter/>", "<filter/>"]⟩)

/-- Such a union passes on what it gets, copies and all. -/
theorem loneUnion_keeps_copies :
    loneUnion.draw = pure ⟨"<path/>", ["<filter/>", "<filter/>"]⟩ ∧
      FirstCopies (loneUnion.leaves.flatMap (·.defs)) ["<filter/>"] ∧
      ¬FirstCopies (loneUnion.leaves.flatMap (·.defs)) ["<filter/>", "<filter/>"] := by
  refine ⟨?_, eraseDups_eq_iff.mp (by decide), fun h => absurd h.nodup (by decide)⟩
  rw [loneUnion, Nesting.draw, Nesting.draw, pure_bind]
  rfl

end VectorGraph
