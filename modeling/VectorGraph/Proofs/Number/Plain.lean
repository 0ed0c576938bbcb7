import VectorGraph.Operator.Shapes
import VectorGraph.Proofs.Markup.Trees
import VectorGraph.Proofs.Results

/-!
Texts that are computed are plain.

The texts of numbers and of outlines hold no quote, no equals sign and no number sign, so that they may
stand in any value.
-/
namespace VectorGraph

open Markup

/-- A text of characters that begin and end nothing. -/
def Plain (s : String) : Prop := ∀ c ∈ s.toList, isPlain c = true

variable {s t : String}

theorem Plain.fit (h : Plain s) (known : List String) : Fit known s :=
  fit_of_plain (List.all_eq_true.mpr h)

theorem plain_of_all (h : s.toList.all isPlain = true) : Plain s := List.all_eq_true.mp h

theorem plain_append (hs : Plain s) (ht : Plain t) : Plain (s ++ t) := by
  intro c mem
  rw [String.toList_append, List.mem_append] at mem
  exact mem.elim (hs c) (ht c)

theorem plain_ofList {cs : List Char} (h : ∀ c ∈ cs, isPlain c = true) : Plain (String.ofList cs) := by
  intro c mem
  rw [String.toList_ofList] at mem
  exact h c mem

theorem plain_ite {P : Prop} [Decidable P] {s t : String} (hs : Plain s) (ht : Plain t) :
    Plain (if P then s else t) := by
  split
  · exact hs
  · exact ht

theorem plain_intercalate (hs : Plain s) {parts : List String} (h : ∀ p ∈ parts, Plain p) :
    Plain (s.intercalate parts) := by
  induction parts with
  | nil => exact fun c mem => by simp at mem
  | cons p rest ih =>
    have later := ih fun q hq => h q (List.mem_cons_of_mem p hq)
    cases rest with
    | nil =>
      rw [String.intercalate_singleton]
      exact h p List.mem_cons_self
    | cons q more =>
      rw [String.intercalate_cons_cons]
      exact plain_append (plain_append (h p List.mem_cons_self) hs) later

/-! ## Numbers -/

theorem isPlain_of_isDigit {c : Char} (h : c.isDigit = true) : isPlain c = true := by
  unfold isPlain
  by_contra special
  simp only [Bool.and_eq_true, bne_iff_ne, not_and_or, not_not] at special
  rcases special with (rfl | rfl) | rfl <;> revert h <;> decide

theorem isDigit_of_mem_repr {n : Nat} {c : Char} (h : c ∈ n.repr.toList) : c.isDigit = true := by
  rw [Nat.toList_repr] at h
  exact Nat.isDigit_of_mem_toDigits (by decide) (by decide) h

theorem plain_repr (n : Nat) : Plain n.repr := fun _ mem => isPlain_of_isDigit (isDigit_of_mem_repr mem)

theorem plain_toString (n : Int) : Plain (toString n) := by
  cases n with
  | ofNat n => exact plain_repr n
  | negSucc n =>
    have text : toString (Int.negSucc n) = "-" ++ (n + 1).repr := rfl
    rw [text]
    exact plain_append (plain_of_all (by decide)) (plain_repr _)

theorem plain_signText (negative : Bool) : Plain (signText negative) := by
  cases negative <;> exact plain_of_all (by decide)

theorem plain_padded (width n : Nat) : Plain (padded width n) := by
  refine plain_append (plain_ofList fun c mem => ?_) (plain_repr n)
  obtain rfl := (List.mem_replicate.mp mem).2
  decide

section Coordinates

variable {p : Char → Bool} (digits : ∀ c : Char, c.isDigit = true → p c = true)

include digits

theorem all_repr (n : Nat) : n.repr.toList.all p = true :=
  List.all_eq_true.mpr fun c mem => digits c (isDigit_of_mem_repr mem)

theorem all_trimmedDigits (point : p '.' = true) (count : Nat) : (trimmedDigits count).toList.all p = true := by
  have zero : p '0' = true := digits '0' (by decide)
  have padded_ : (padded 4 (count % 10000)).toList.all p = true := by
    rw [padded, String.toList_append, List.all_append, all_repr digits, Bool.and_true]
    simp [zero]
  have rest : (Shortest.dropZeros (padded 4 (count % 10000)).toList).all p = true := by
    refine List.all_eq_true.mpr fun c mem => List.all_eq_true.mp padded_ c ?_
    rw [Shortest.dropZeros, List.mem_reverse] at mem
    exact List.mem_reverse.mp ((List.dropWhile_sublist _).subset mem)
  unfold trimmedDigits
  dsimp only
  rw [String.toList_append, List.all_append, all_repr digits, Bool.true_and]
  split
  · rfl
  · simp [point, rest]

/-- A coordinate is written with digits, a sign, a point and the letters of what is no number. -/
theorem all_coordinateText (others : ['-', '.', 'n', 'a', 'i', 'f'].all p = true) (x : Float) :
    (coordinateText x).toList.all p = true := by
  simp only [List.all_cons, List.all_nil, Bool.and_eq_true] at others
  obtain ⟨sign, point, n, a, i, f, -⟩ := others
  have signed : ∀ negative, (signText negative).toList.all p = true := by
    intro negative
    cases negative <;> simp [signText, sign]
  unfold coordinateText
  split
  · simp [n, a]
  · rw [String.toList_append, List.all_append, signed]
    simp [i, n, f]
  · unfold Binary.coordinate
    dsimp only
    split <;> rw [String.toList_append, List.all_append, signed, Bool.true_and]
    · exact all_repr digits _
    · exact all_trimmedDigits digits point _

end Coordinates

theorem plain_coordinateText (x : Float) : Plain (coordinateText x) :=
  plain_of_all (all_coordinateText (fun _ => isPlain_of_isDigit) (by decide) x)

theorem plain_fixedText (places : Nat) (x : Float) : Plain (fixedText places x) := by
  unfold fixedText
  split
  · exact plain_of_all (by decide)
  · exact plain_append (plain_signText _) (plain_of_all (by decide))
  · unfold fixedDigits
    exact plain_append (plain_signText _)
      (plain_append (plain_append (plain_repr _) (plain_of_all (by decide))) (plain_padded _ _))

theorem plain_attributeText (r : Extent) : Plain r.attributeText := by
  cases r with
  | pixels n => exact plain_toString n
  | truth b =>
    cases b <;> exact plain_of_all (by decide)

theorem plain_literal (r : Extent) : Plain r.literal := by
  cases r with
  | pixels n => exact plain_toString n
  | truth b =>
    cases b <;> exact plain_of_all (by decide)

/-! ## Outlines -/

theorem plain_coordinate {a : Scalar} (h : a.coordinate = .ok s) : Plain s := by
  unfold Scalar.coordinate at h
  split at h
  · rw [← Except.ok.inj h]
    exact plain_coordinateText _
  · cases h

theorem plain_command {c : Command Scalar} (h : c.text Scalar.coordinate = .ok s) : Plain s := by
  have word : ∀ {w : String}, w.toList.all isPlain = true → Plain w := plain_of_all
  cases c with
  | move x y =>
    obtain ⟨a, ha, h⟩ := bind_eq_ok.mp h
    obtain ⟨b, hb, h⟩ := bind_eq_ok.mp h
    obtain rfl := Except.ok.inj h
    exact plain_append (plain_append (plain_append (word (by decide)) (plain_coordinate ha))
      (word (by decide))) (plain_coordinate hb)
  | line x y =>
    obtain ⟨a, ha, h⟩ := bind_eq_ok.mp h
    obtain ⟨b, hb, h⟩ := bind_eq_ok.mp h
    obtain rfl := Except.ok.inj h
    exact plain_append (plain_append (plain_append (word (by decide)) (plain_coordinate ha))
      (word (by decide))) (plain_coordinate hb)
  | cubic x₁ y₁ x₂ y₂ x y =>
    obtain ⟨a, ha, h⟩ := bind_eq_ok.mp h
    obtain ⟨b, hb, h⟩ := bind_eq_ok.mp h
    obtain ⟨c, hc, h⟩ := bind_eq_ok.mp h
    obtain ⟨d, hd, h⟩ := bind_eq_ok.mp h
    obtain ⟨e, he, h⟩ := bind_eq_ok.mp h
    obtain ⟨f, hf, h⟩ := bind_eq_ok.mp h
    obtain rfl := Except.ok.inj h
    have two := plain_append (plain_append (plain_append (word (w := "C ") (by decide))
      (plain_coordinate ha)) (word (w := " ") (by decide))) (plain_coordinate hb)
    have four := plain_append (plain_append (plain_append (plain_append two (word (w := ", ") (by decide)))
      (plain_coordinate hc)) (word (w := " ") (by decide))) (plain_coordinate hd)
    exact plain_append (plain_append (plain_append (plain_append four (word (by decide)))
      (plain_coordinate he)) (word (by decide))) (plain_coordinate hf)
  | arc rx ry large sweep x y =>
    obtain ⟨a, ha, h⟩ := bind_eq_ok.mp h
    obtain ⟨b, hb, h⟩ := bind_eq_ok.mp h
    obtain ⟨c, hc, h⟩ := bind_eq_ok.mp h
    obtain ⟨d, hd, h⟩ := bind_eq_ok.mp h
    obtain rfl := Except.ok.inj h
    have flag : ∀ b, Plain (flagText b) := fun b => by cases b <;> exact word (by decide)
    have two := plain_append (plain_append (plain_append (word (w := "A ") (by decide))
      (plain_coordinate ha)) (word (w := " ") (by decide))) (plain_coordinate hb)
    have flags := plain_append (plain_append (plain_append (plain_append two (word (w := " 0 ") (by decide)))
      (flag large)) (word (w := " ") (by decide))) (flag sweep)
    exact plain_append (plain_append (plain_append (plain_append flags (word (by decide)))
      (plain_coordinate hc)) (word (by decide))) (plain_coordinate hd)
  | close =>
    obtain rfl := Except.ok.inj h
    exact word (by decide)

theorem plain_outlineText {outline : Outline Scalar} (h : outlineText outline = .ok s) : Plain s := by
  obtain ⟨parts, hparts, h⟩ := bind_eq_ok.mp h
  obtain rfl := Except.ok.inj h
  refine plain_intercalate (plain_of_all (by decide)) fun p hp => ?_
  obtain ⟨c, -, hc⟩ := exists_of_mem_mapM hparts p hp
  exact plain_command hc

end VectorGraph
