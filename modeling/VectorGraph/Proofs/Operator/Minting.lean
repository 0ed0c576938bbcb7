import Std.Data.String.ToInt
import VectorGraph.Operator.Basic
import VectorGraph.Proofs.Number.Plain

/-!
Ids that are minted, and drawings that mint them.

An id is a word, a number and a salt with underscores between them. Neither a word nor a number holds an
underscore, so that ids with different numbers differ, whatever their words and salts are (`name_inj`).

A drawing hands its ids on to the next one. `Drawing.Meets` says what a drawing comes to from given ids;
there is one rule for every way in which drawings are put together.
-/
namespace VectorGraph

open Markup

/-! ## Ids -/

/-- What ids begin with. -/
def isWord (word : String) : Bool := word.toList.all Char.isAlphanum

namespace IdSource

/-- The id with a number. -/
def name (salt word : String) (n : Int) : String := word ++ "_" ++ toString n ++ "_" ++ salt

variable {ids ids' ids'' : IdSource} {word word' salt salt' : String} {n n' : Int}

theorem toList_name : (name salt word n).toList =
    word.toList ++ '_' :: ((toString n).toList ++ '_' :: salt.toList) := by
  simp [name]

theorem char_of_mem_toString {c : Char} (h : c ∈ (toString n).toList) : c.isDigit = true ∨ c = '-' := by
  cases n with
  | ofNat n => exact .inl (isDigit_of_mem_repr h)
  | negSucc n =>
    have text : toString (Int.negSucc n) = "-" ++ (n + 1).repr := rfl
    rw [text, String.toList_append, List.mem_append] at h
    rcases h with h | h
    · exact .inr (List.mem_singleton.mp h)
    · exact .inl (isDigit_of_mem_repr h)

/-- A list is split at the first place where `x` stands in one way only. -/
theorem append_cons_inj {α : Type} {x : α} {a b c d : List α} (ha : x ∉ a) (hc : x ∉ c)
    (h : a ++ x :: b = c ++ x :: d) : a = c ∧ b = d := by
  induction a generalizing c with
  | nil =>
    cases c with
    | nil => exact ⟨rfl, (List.cons.inj h).2⟩
    | cons y c => exact absurd ((List.cons.inj h).1 ▸ List.mem_cons_self) hc
  | cons y a ih =>
    cases c with
    | nil => exact absurd ((List.cons.inj h).1 ▸ List.mem_cons_self) ha
    | cons z c =>
      obtain ⟨rfl, rest⟩ := List.cons.inj h
      obtain ⟨rfl, rfl⟩ := ih (fun mem => ha (List.mem_cons_of_mem y mem))
        (fun mem => hc (List.mem_cons_of_mem y mem)) rest
      exact ⟨rfl, rfl⟩

theorem not_mem_of_isWord (h : isWord word = true) : '_' ∉ word.toList := by
  intro mem
  exact absurd (List.all_eq_true.mp h _ mem) (by decide)

theorem not_mem_toString : '_' ∉ (toString n).toList := by
  intro mem
  rcases char_of_mem_toString mem with digit | dash
  · exact absurd digit (by decide)
  · exact absurd dash (by decide)

/-- The number can be read off an id. -/
theorem name_inj (hw : isWord word = true) (hw' : isWord word' = true)
    (h : name salt word n = name salt' word' n') : n = n' := by
  have chars := congrArg String.toList h
  rw [toList_name, toList_name] at chars
  obtain ⟨-, rest⟩ := append_cons_inj (not_mem_of_isWord hw) (not_mem_of_isWord hw') chars
  obtain ⟨digits, -⟩ := append_cons_inj not_mem_toString not_mem_toString rest
  exact Int.repr_injective (String.toList_inj.mp digits)

/-- So can the salt. -/
theorem salt_inj (hw : isWord word = true) (hw' : isWord word' = true)
    (h : name salt word n = name salt' word' n') : salt = salt' := by
  have chars := congrArg String.toList h
  rw [toList_name, toList_name] at chars
  obtain ⟨-, rest⟩ := append_cons_inj (not_mem_of_isWord hw) (not_mem_of_isWord hw') chars
  obtain ⟨-, rest⟩ := append_cons_inj not_mem_toString not_mem_toString rest
  exact String.toList_inj.mp rest

/-- Salts are made of what ids are made of. -/
def Salted (ids : IdSource) : Prop := ∀ c ∈ ids.salt.toList, isIdChar c = true

theorem isIdChar_name (hw : isWord word = true) (hs : ∀ c ∈ salt.toList, isIdChar c = true) :
    ∀ c ∈ (name salt word n).toList, isIdChar c = true := by
  intro c mem
  rw [toList_name] at mem
  simp only [List.mem_append, List.mem_cons] at mem
  rcases mem with mem | rfl | mem | rfl | mem
  · have letter := List.all_eq_true.mp hw c mem
    simp [isIdChar, letter]
  · decide
  · rcases char_of_mem_toString mem with digit | rfl
    · simp [isIdChar, Char.isAlphanum, digit]
    · decide
  · decide
  · exact hs c mem

/-- `ids'` is what is left of `ids` later on. -/
structure Before (ids ids' : IdSource) : Prop where
  salt : ids'.salt = ids.salt
  counter : ids.counter ≤ ids'.counter

namespace Before

theorem refl (ids : IdSource) : ids.Before ids := ⟨rfl, Int.le_refl _⟩

theorem trans (h : ids.Before ids') (h' : ids'.Before ids'') : ids.Before ids'' :=
  ⟨h'.salt.trans h.salt, Int.le_trans h.counter h'.counter⟩

theorem mint (ids : IdSource) (word : String) : ids.Before (ids.mint word).2 :=
  ⟨rfl, by simp only [IdSource.mint]; omega⟩

theorem salted (h : ids.Before ids') (hs : ids.Salted) : ids'.Salted := by
  unfold Salted
  rw [h.salt]
  exact hs

end Before

/-- An id that was minted on the way from `ids` to `ids'`. -/
def Minted (ids ids' : IdSource) (x : String) : Prop :=
  ∃ (word : String) (n : Int), isWord word = true ∧ ids.counter < n ∧ n ≤ ids'.counter ∧
    x = name ids.salt word n

theorem minted_mint (ids : IdSource) {word : String} (hw : isWord word = true) :
    Minted ids (ids.mint word).2 (ids.mint word).1 :=
  ⟨word, ids.counter + 1, hw, by omega, Int.le_refl _, rfl⟩

namespace Minted

variable {x : String}

theorem widen (h : Minted ids' ids'' x) (before : ids.Before ids') {last : IdSource}
    (after : ids''.Before last) : Minted ids last x := by
  obtain ⟨word, n, hw, low, high, rfl⟩ := h
  refine ⟨word, n, hw, ?_, ?_, by rw [before.salt]⟩
  · have := before.counter
    omega
  · have := after.counter
    omega

theorem chars (h : Minted ids ids' x) (hs : ids.Salted) : ∀ c ∈ x.toList, isIdChar c = true := by
  obtain ⟨word, n, hw, -, -, rfl⟩ := h
  exact isIdChar_name hw hs

/-- What was minted before differs from what is minted afterwards. -/
theorem ne {first last : IdSource} {y : String} (hx : Minted first ids x) (hy : Minted ids' last y)
    (order : ids.counter ≤ ids'.counter) : x ≠ y := by
  obtain ⟨word, n, hw, -, high, rfl⟩ := hx
  obtain ⟨word', n', hw', low, -, rfl⟩ := hy
  intro same
  have := name_inj hw hw' same
  omega

/-- What was minted with one salt differs from what was minted with another one. -/
theorem ne_of_salt {first last : IdSource} {y : String} (hx : Minted ids first x) (hy : Minted ids' last y)
    (salts : ids.salt ≠ ids'.salt) : x ≠ y := by
  obtain ⟨word, n, hw, -, -, rfl⟩ := hx
  obtain ⟨word', n', hw', -, -, rfl⟩ := hy
  exact fun same => salts (salt_inj hw hw' same)

end Minted

end IdSource

/-! ## Drawings -/

namespace Drawing

variable {α β : Type} {ids : IdSource} {d : Drawing α} {f : α → Drawing β} {P : α → IdSource → Prop}
  {Q : β → IdSource → Prop}

/-- What a drawing leaves, and what it comes to unless it fails. -/
structure Meets (d : Drawing α) (ids : IdSource) (P : α → IdSource → Prop) : Prop where
  before : ids.Before (d.run.run ids).2
  result : ∀ a, (d.run.run ids).1 = .ok a → P a (d.run.run ids).2

theorem run_bind : (d >>= f).run.run ids =
    match d.run.run ids with
    | (.ok a, ids') => (f a).run.run ids'
    | (.error failure, ids') => (.error failure, ids') := by
  change (ExceptT.bind d f).run.run ids = _
  unfold ExceptT.bind ExceptT.run ExceptT.mk ExceptT.bindCont
  dsimp only [StateT.run, Bind.bind, StateT.bind]
  obtain ⟨r, ids'⟩ := d ids
  cases r <;> rfl

theorem run_map (g : α → β) : (g <$> d).run.run ids = ((d.run.run ids).1.map g, (d.run.run ids).2) := by
  rw [map_eq_pure_bind, run_bind]
  split
  · next a ids' run =>
    rw [run]
    rfl
  · next failure ids' run =>
    rw [run]
    rfl

namespace Meets

theorem pure {a : α} (h : P a ids) : Meets (Pure.pure a : Drawing α) ids P :=
  ⟨.refl ids, fun _ ha => Except.ok.inj ha ▸ h⟩

theorem bind (h : Meets d ids P) (next : ∀ a ids', ids.Before ids' → P a ids' → Meets (f a) ids' Q) :
    Meets (d >>= f) ids Q := by
  have run : (d >>= f).run.run ids = _ := run_bind
  obtain ⟨before, result⟩ := h
  rw [show d.run.run ids = ((d.run.run ids).1, (d.run.run ids).2) from rfl] at run
  cases hd : (d.run.run ids).1 with
  | error failure =>
    rw [hd] at run
    refine ⟨run ▸ before, fun b hb => ?_⟩
    rw [run] at hb
    cases hb
  | ok a =>
    rw [hd] at run
    obtain ⟨before', result'⟩ := next a _ before (result a hd)
    exact ⟨run ▸ before.trans before', run ▸ result'⟩

/-- A value that is read may be missing, and costs no id. -/
theorem lift {x : Except Failure α} (h : ∀ a, x = .ok a → P a ids) : Meets (liftM x : Drawing α) ids P :=
  ⟨.refl ids, h⟩

theorem pureBind {a : α} (next : Meets (f a) ids Q) : Meets (Pure.pure a >>= f) ids Q := by
  rw [pure_bind]
  exact next

theorem read {x : Except Failure α} (next : ∀ a, x = .ok a → Meets (f a) ids Q) :
    Meets (liftM x >>= f) ids Q := by
  have got : Meets (liftM x : Drawing α) ids fun a ids' => x = .ok a ∧ ids' = ids :=
    lift fun a ha => ⟨ha, rfl⟩
  refine got.bind fun a ids' _ h => ?_
  rw [h.2]
  exact next a h.1

theorem mint {word : String} {f : String → Drawing β}
    (next : Meets (f (ids.mint word).1) (ids.mint word).2 Q) : Meets (Drawing.mint word >>= f) ids Q := by
  have got : Meets (Drawing.mint word) ids fun id ids' =>
      id = (ids.mint word).1 ∧ ids' = (ids.mint word).2 :=
    ⟨.mint ids word, fun id h => ⟨(Except.ok.inj h).symm, rfl⟩⟩
  refine got.bind fun id ids' _ h => ?_
  rw [h.1, h.2]
  exact next

end Meets

end Drawing

end VectorGraph
