import VectorGraph.Markup.Numbering

/-!
Texts without ids.

An id that was minted has an underscore in it, so a text without one is its own numbered form. Two fragments that have no
definitions and no underscore in their markup are therefore the same up to the names of ids only if they are equal.
-/
namespace VectorGraph

namespace Numbering

variable {known : List (List Char)} {cs : List Char}

theorem idAt?_eq_none (h : '_' ∉ cs) : idAt? cs = none := by
  unfold idAt?
  rw [List.findSome?_eq_none_iff]
  intro word _
  have off : (word.toList ++ ['_']).isPrefixOf cs = false := by
    rw [Bool.eq_false_iff, Ne, List.isPrefixOf_iff_prefix]
    intro lead
    exact h (lead.subset (List.mem_append_right _ (List.mem_singleton.mpr rfl)))
  simp [off]

theorem numberFrom_plain (h : '_' ∉ cs) : ∀ done, numberFrom known done cs = (known, done.reverse ++ cs) := by
  induction cs with
  | nil =>
    intro done
    rw [numberFrom, List.append_nil]
  | cons c rest ih =>
    intro done
    rw [numberFrom, idAt?_eq_none h]
    dsimp only
    rw [ih (fun there => h (List.mem_cons_of_mem c there)), List.reverse_cons, List.append_assoc]
    rfl

theorem number_plain {text : String} (h : '_' ∉ text.toList) : number known text = (known, text) := by
  rw [number, numberFrom_plain h]
  simp

end Numbering

/-- A fragment without definitions and underscores is its own numbered form. -/
theorem Fragment.numbered_plain {f : Fragment} (defs : f.defs = []) (h : '_' ∉ f.markup.toList) : f.numbered = f := by
  obtain ⟨markup, defs'⟩ := f
  subst defs
  simp [Fragment.numbered, Numbering.number_plain h]

end VectorGraph
