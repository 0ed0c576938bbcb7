import Mathlib.Data.List.TakeWhile

/-!
How far a text reaches that is made of certain characters.

Where such a text is followed by another character or by nothing, it can be cut off again.
-/
namespace VectorGraph

variable {p : Char → Bool} {u v r s : List Char}

/-- Nothing follows, or a character that does not belong to the text before. -/
def Ends (p : Char → Bool) (rest : List Char) : Prop := ∀ c ∈ rest.head?, p c = false

theorem ends_nil : Ends p [] := nofun

theorem ends_cons {c : Char} (h : p c = false) (rest : List Char) : Ends p (c :: rest) := by
  rintro _ ⟨⟩
  exact h

/-- The text can be cut off from what follows. -/
theorem cut_append (inside : ∀ c ∈ u, p c = true) (ends : Ends p r) :
    (u ++ r).takeWhile p = u ∧ (u ++ r).dropWhile p = r := by
  rw [List.takeWhile_append_of_pos inside, List.dropWhile_append_of_pos inside]
  cases r with
  | nil => exact ⟨List.append_nil u, rfl⟩
  | cons c r =>
    have outside : ¬p c = true := Bool.eq_false_iff.mp (ends c rfl)
    rw [List.takeWhile_cons_of_neg outside, List.dropWhile_cons_of_neg outside]
    exact ⟨List.append_nil u, rfl⟩

/-- Two such texts are one if what they begin is. -/
theorem append_inj_of_ends (hu : ∀ c ∈ u, p c = true) (hv : ∀ c ∈ v, p c = true) (hr : Ends p r) (hs : Ends p s)
    (h : u ++ r = v ++ s) : u = v ∧ r = s := by
  obtain ⟨front, back⟩ := cut_append hu hr
  obtain ⟨front', back'⟩ := cut_append hv hs
  rw [h] at front back
  exact ⟨front.symm.trans front', back.symm.trans back'⟩

end VectorGraph
