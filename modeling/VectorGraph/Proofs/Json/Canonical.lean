import Mathlib.Data.List.Forall2
import Mathlib.Data.String.Basic
import Std.Data.String.ToInt
import VectorGraph.Graph.Basic
import VectorGraph.Proofs.Json.Quoted
import VectorGraph.Proofs.Number.Decimals

/-!
Canonical texts tell values apart.

Two values are alike if they differ in nothing but the order of keys (`Alike`). Alike values whose keys are distinct
at every level have one text, since their fields are written in one order (`Alike.canonical_eq`).

The converse says that a text is read in one way. The first character tells a quoted string, a list and an object from
the words, which are the constants and the numbers; a word ends where a separator or a bracket stands, a string at its
closing quote, and in a list or an object an item ends where the text of the item does. So whatever follows a value, the
text in front tells the value (`tells`), and no two values have one text that are not alike. Together this is
`canonicalParams_eq_iff`: the text by which the parameters of a node are identified loses the order of their keys and
nothing else.
-/
namespace VectorGraph

namespace Json

/-- Two values differ in nothing but the order in which the keys of objects stand: the fields of both objects can be put
in an order in which the keys agree and the values are alike. -/
inductive Alike : Json → Json → Prop
  | null : Alike .null .null
  | bool (b : Bool) : Alike (.bool b) (.bool b)
  | whole (n : Int) : Alike (.whole n) (.whole n)
  | real (x : Float) : Alike (.real x) (.real x)
  | text (s : String) : Alike (.text s) (.text s)
  | list {xs ys : List Json} (length : xs.length = ys.length) (items : ∀ x y, (x, y) ∈ xs.zip ys → Alike x y) :
      Alike (.list xs) (.list ys)
  | object {fs gs fs' gs' : Fields} (left : fs.Perm fs') (right : gs.Perm gs')
      (keys : fs'.map (·.1) = gs'.map (·.1)) (values : ∀ f g, (f, g) ∈ fs'.zip gs' → Alike f.2 g.2) :
      Alike (.object fs) (.object gs)

/-- No key stands twice in an object, at any level. -/
inductive Keyed : Json → Prop
  | null : Keyed .null
  | bool (b : Bool) : Keyed (.bool b)
  | whole (n : Int) : Keyed (.whole n)
  | real (x : Float) : Keyed (.real x)
  | text (s : String) : Keyed (.text s)
  | list {items : List Json} (each : ∀ x ∈ items, Keyed x) : Keyed (.list items)
  | object {fields : Fields} (distinct : (fields.map (·.1)).Nodup) (each : ∀ f ∈ fields, Keyed f.2) :
      Keyed (.object fields)

/-- Two lists are mapped to one if their entries are, one by one. -/
theorem map_eq_map_iff_zip {α β γ : Type} {f : α → γ} {g : β → γ} {xs : List α} {ys : List β} :
    xs.map f = ys.map g ↔ xs.length = ys.length ∧ ∀ x y, (x, y) ∈ xs.zip ys → f x = g y := by
  rw [← List.forall₂_eq_eq_eq, List.forall₂_map_left_iff, List.forall₂_map_right_iff, List.forall₂_iff_zip]

/-! ## Fields in order -/

theorem canonicalItems_eq_map (items : List Json) : canonicalItems items = items.map canonical := by
  induction items with
  | nil => rfl
  | cons item rest ih => rw [canonicalItems, ih, List.map_cons]

theorem canonicalFields_eq_map (fields : Fields) :
    canonicalFields fields = fields.map fun f => (f.1, canonical f.2) := by
  induction fields with
  | nil => rfl
  | cons f rest ih =>
    obtain ⟨key, value⟩ := f
    rw [canonicalFields, ih, List.map_cons]

/-- Fields in the order in which they are written. -/
def inOrder (fields : Fields) : Fields := fields.mergeSort fun a b => !(b.1 < a.1)

/-- A field as it is written. -/
def lineOf (f : String × Json) : String := fieldText (f.1, canonical f.2)

theorem canonical_list (items : List Json) :
    canonical (.list items) = "[" ++ ", ".intercalate (items.map canonical) ++ "]" := by
  rw [canonical, canonicalItems_eq_map]

theorem canonical_object (fields : Fields) :
    canonical (.object fields) = "\x7b" ++ ", ".intercalate ((inOrder fields).map lineOf) ++ "\x7d" := by
  rw [canonical, canonicalFields_eq_map, sortFields, inOrder]
  rw [← List.map_mergeSort (r := fun a b : String × Json => !(b.1 < a.1)) (fun _ _ _ _ => rfl), List.map_map]
  rfl

/-! ## One text for values that are alike -/

/-- Fields with distinct keys are sorted in one way. -/
theorem sortFields_eq_of_perm {fs gs : List (String × String)} (distinct : (fs.map (·.1)).Nodup) (h : fs.Perm gs) :
    sortFields fs = sortFields gs := by
  have le_iff : ∀ a b : String × String, (!decide (b.1 < a.1)) = true ↔ a.1 ≤ b.1 := fun a b => by
    rw [Bool.not_eq_true', decide_eq_false_iff_not, String.not_lt]
  have sorted : ∀ l : List (String × String), (sortFields l).Pairwise fun a b => (!decide (b.1 < a.1)) = true :=
    fun l => List.pairwise_mergeSort
      (fun a b c hab hbc => (le_iff a c).mpr (String.le_trans ((le_iff a b).mp hab) ((le_iff b c).mp hbc)))
      (fun a b => Bool.or_eq_true _ _ ▸ (String.le_total a.1 b.1).imp (le_iff a b).mpr (le_iff b a).mpr) l
  refine List.Perm.eq_of_pairwise (fun a b ha hb hab hba => ?_) (sorted fs) (sorted gs)
    ((List.mergeSort_perm fs _).trans (h.trans (List.mergeSort_perm gs _).symm))
  have ha : a ∈ fs := List.mem_mergeSort.mp ha
  have hb : b ∈ fs := h.symm.subset (List.mem_mergeSort.mp hb)
  exact List.inj_on_of_nodup_map distinct ha hb (String.le_antisymm ((le_iff a b).mp hab) ((le_iff b a).mp hba))

/-- Values that are alike have one text, if the keys of one of them are distinct at every level. -/
theorem Alike.canonical_eq {a b : Json} (h : Alike a b) (keyed : a.Keyed) : canonical a = canonical b := by
  induction h with
  | null => rfl
  | bool b => rfl
  | whole n => rfl
  | real x => rfl
  | text s => rfl
  | @list xs ys length items ih =>
    cases keyed with | list each => ?_
    have texts : xs.map canonical = ys.map canonical :=
      map_eq_map_iff_zip.mpr ⟨length, fun x y hxy => ih x y hxy (each x (List.of_mem_zip hxy).1)⟩
    rw [canonical_list, canonical_list, texts]
  | @object fs gs fs' gs' left right keys values ih =>
    cases keyed with | object distinct each => ?_
    obtain ⟨length, sameKey⟩ := map_eq_map_iff_zip.mp keys
    have texts : canonicalFields fs' = canonicalFields gs' := by
      rw [canonicalFields_eq_map, canonicalFields_eq_map, map_eq_map_iff_zip]
      refine ⟨length, fun f g hfg => ?_⟩
      rw [sameKey f g hfg, ih f g hfg (each f (left.symm.subset (List.of_mem_zip hfg).1))]
    -- The keys are distinct, so sorting forgets the order: both sort as the lists do that agree place by place.
    have sorted : sortFields (canonicalFields fs) = sortFields (canonicalFields gs) :=
      calc sortFields (canonicalFields fs)
          = sortFields (canonicalFields fs') := by
            refine sortFields_eq_of_perm ?_ ?_
            · rwa [canonicalFields_eq_map, List.map_map]
            · rw [canonicalFields_eq_map, canonicalFields_eq_map]
              exact left.map _
        _ = sortFields (canonicalFields gs') := by rw [texts]
        _ = sortFields (canonicalFields gs) := by
            refine sortFields_eq_of_perm ?_ ?_
            · rw [← texts, canonicalFields_eq_map, List.map_map]
              exact (left.map _).nodup_iff.mp distinct
            · rw [canonicalFields_eq_map, canonicalFields_eq_map]
              exact right.symm.map _
    rw [canonical, canonical, sorted]

/-- Every field of an object has its key and a value that is alike in an object that is alike. -/
theorem Alike.exists_field {fs gs : Fields} (h : Alike (.object fs) (.object gs)) {f : String × Json} (hf : f ∈ fs) :
    ∃ g ∈ gs, f.1 = g.1 ∧ Alike f.2 g.2 := by
  cases h with | @object _ _ fs' gs' left right keys values => ?_
  obtain ⟨length, sameKey⟩ := map_eq_map_iff_zip.mp keys
  obtain ⟨i, hi, rfl⟩ := List.getElem_of_mem (left.subset hf)
  have inBoth : i < (fs'.zip gs').length := by simpa [← length] using hi
  have pair := List.getElem_mem inBoth
  rw [List.getElem_zip] at pair
  exact ⟨_, right.symm.subset (List.getElem_mem _), sameKey _ _ pair, values _ _ pair⟩

/-! ## Words -/

/-- A value without parts is written as a word. -/
def isWord : Json → Bool
  | .null | .bool _ | .whole _ | .real _ => true
  | _ => false

/-- What does not stand after a value in a list or an object. -/
def isInner (c : Char) : Bool := c != ',' && c != ']' && c != '\x7d'

/-- What begins a value that has parts. -/
def isOpening (c : Char) : Bool := c == '"' || c == '[' || c == '\x7b'

/-- What may stand in a word. -/
def isWordChar (c : Char) : Bool := isInner c && !isOpening c

variable {a b : Json} {c : Char}

theorem isWordChar_of_isDigit (digit : c.isDigit = true) : isWordChar c = true := by
  have other : ∀ d : Char, d.isDigit = false → (c == d) = false := fun d h => beq_false_of_ne (ne_of_isDigit digit h)
  simp only [isWordChar, isInner, isOpening, bne, Bool.and_eq_true, Bool.not_eq_true', Bool.or_eq_false_iff]
  exact ⟨⟨⟨other _ rfl, other _ rfl⟩, other _ rfl⟩, ⟨other _ rfl, other _ rfl⟩, other _ rfl⟩

theorem isWordChar_of_mem (word : a.isWord = true) (hc : c ∈ a.canonical.toList) : isWordChar c = true := by
  have each : ∀ {w : List Char}, w.all isWordChar = true → c ∈ w → isWordChar c = true :=
    fun all hc => List.all_eq_true.mp all c hc
  cases a with
  | null => exact each (by decide : "null".toList.all isWordChar = true) hc
  | bool t =>
    cases t
    · exact each (by decide : "false".toList.all isWordChar = true) hc
    · exact each (by decide : "true".toList.all isWordChar = true) hc
  | whole n =>
    rcases mem_toString hc with digit | rfl
    · exact isWordChar_of_isDigit digit
    · rfl
  | real x =>
    rcases mem_realText hc with digit | letter
    · exact isWordChar_of_isDigit digit
    · exact each (by decide) letter
  | text _ | list _ | object _ => cases word

/-- Nothing in a word ends it, and nothing in it begins a value with parts. -/
theorem plain_of_mem_word (word : a.isWord = true) (hc : c ∈ a.canonical.toList) :
    isInner c = true ∧ isOpening c = false := by
  have plain := isWordChar_of_mem word hc
  rwa [isWordChar, Bool.and_eq_true, Bool.not_eq_true'] at plain

/-- The constants are written with a letter that no number has. -/
theorem letter_of_name : ∀ name ∈ ["null", "false", "true"], 'u' ∈ name.toList ∨ 's' ∈ name.toList := by decide

theorem toString_ne_name (n : Int) {name : String} (h : name ∈ ["null", "false", "true"]) : name ≠ toString n := by
  rintro rfl
  rcases letter_of_name _ h with letter | letter <;> exact absurd (mem_toString letter) (by decide)

theorem realText_ne_name (x : Float) {name : String} (h : name ∈ ["null", "false", "true"]) : name ≠ realText x := by
  rintro rfl
  rcases letter_of_name _ h with letter | letter <;> exact absurd (mem_realText letter) (by decide)

theorem name_mem (b : Bool) : canonical (.bool b) ∈ ["null", "false", "true"] := by
  cases b <;> decide

/-- Two words that are written alike are one. -/
theorem word_inj (wordA : a.isWord = true) (wordB : b.isWord = true) (h : canonical a = canonical b) : a = b := by
  -- Names have letters that no number has, and the text of a double has a mark that no integer has.
  cases a with
  | null =>
    cases b with
    | null => rfl
    | bool t => exact absurd h (by cases t <;> decide)
    | whole n => exact absurd h (toString_ne_name n List.mem_cons_self)
    | real x => exact absurd h (realText_ne_name x List.mem_cons_self)
    | text _ | list _ | object _ => cases wordB
  | bool t =>
    cases b with
    | null => exact absurd h (by cases t <;> decide)
    | bool t' =>
      revert h
      cases t <;> cases t' <;> decide
    | whole n => exact absurd h (toString_ne_name n (name_mem t))
    | real x => exact absurd h (realText_ne_name x (name_mem t))
    | text _ | list _ | object _ => cases wordB
  | whole n =>
    cases b with
    | null => exact absurd h.symm (toString_ne_name n List.mem_cons_self)
    | bool t => exact absurd h.symm (toString_ne_name n (name_mem t))
    | whole n' =>
      have digits : n.repr = n'.repr := h
      rw [Int.repr_injective digits]
    | real x => exact absurd h.symm (realText_ne_toString x n)
    | text _ | list _ | object _ => cases wordB
  | real x =>
    cases b with
    | null => exact absurd h.symm (realText_ne_name x List.mem_cons_self)
    | bool t => exact absurd h.symm (realText_ne_name x (name_mem t))
    | whole n => exact absurd h (realText_ne_toString x n)
    | real y =>
      have texts : realText x = realText y := h
      rw [realText_injective texts]
    | text _ | list _ | object _ => cases wordB
  | text _ | list _ | object _ => cases wordA

/-! ## Beginnings and ends -/

/-- The character that begins a value with parts. -/
def opening : Json → Option Char
  | .text _ => some '"'
  | .list _ => some '['
  | .object _ => some '\x7b'
  | _ => none

theorem word_ne_nil (word : a.isWord = true) : a.canonical.toList ≠ [] := by
  cases a with
  | null => decide
  | bool b => cases b <;> decide
  | whole n => exact fun none_ => toString_ne_empty n (String.toList_eq_nil_iff.mp none_)
  | real x =>
    obtain ⟨c, hc, -⟩ := marked_realText x
    exact List.ne_nil_of_mem hc
  | _ => cases word

/-- The first character tells a word from a string, a list and an object, and never ends a value. -/
theorem canonical_eq_cons (a : Json) : ∃ c cs, a.canonical.toList = c :: cs ∧ isInner c = true ∧
    (if isOpening c then some c else none) = a.opening := by
  by_cases word : a.isWord = true
  · obtain ⟨c, cs, text⟩ := List.exists_cons_of_ne_nil (word_ne_nil word)
    obtain ⟨inner, notOpening⟩ := plain_of_mem_word word (text ▸ List.mem_cons_self)
    refine ⟨c, cs, text, inner, ?_⟩
    rw [notOpening]
    cases a <;> first | rfl | cases word
  · cases a with
    | text s => exact ⟨'"', _, by rw [canonical, quoted, String.append_assoc, String.toList_append]; rfl, rfl, rfl⟩
    | list items => exact ⟨'[', _, by rw [canonical, String.append_assoc, String.toList_append]; rfl, rfl, rfl⟩
    | object fields => exact ⟨'\x7b', _, by rw [canonical, String.append_assoc, String.toList_append]; rfl, rfl, rfl⟩
    | _ => exact absurd rfl word

/-- Where two texts begin with values, these are of one sort. -/
theorem opening_eq {r s : List Char} (h : a.canonical.toList ++ r = b.canonical.toList ++ s) :
    a.opening = b.opening := by
  obtain ⟨c, cs, text, -, first⟩ := canonical_eq_cons a
  obtain ⟨c', cs', text', -, first'⟩ := canonical_eq_cons b
  rw [text, text', List.cons_append, List.cons_append] at h
  rw [← first, ← first', (List.cons.inj h).1]

/-! ## Lists of parts -/

section Parts

variable {α : Type} {f : α → String} {close : Char} {r s : List Char}

/-- Parts with separators, and what follows. -/
def listed (f : α → String) (xs : List α) (rest : List Char) : List Char := (", ".intercalate (xs.map f)).toList ++ rest

/-- What follows the first of some parts. -/
def after (f : α → String) (xs : List α) (rest : List Char) : List Char :=
  match xs with
  | [] => rest
  | x :: xs => ',' :: ' ' :: listed f (x :: xs) rest

theorem listed_nil (rest : List Char) : listed f [] rest = rest := by simp [listed]

theorem listed_cons (x : α) (xs : List α) (rest : List Char) :
    listed f (x :: xs) rest = (f x).toList ++ after f xs rest := by
  cases xs with
  | nil => simp [listed, after]
  | cons y ys => simp [listed, after, String.intercalate_cons_cons]

theorem ends_after (outer : isInner close = false) (xs : List α) : Ends isInner (after f xs (close :: r)) := by
  cases xs with
  | nil => exact ends_cons outer r
  | cons x xs => exact ends_cons rfl _

/-- Whatever stands behind it, the text of the part tells the part, up to a relation, and where it ends. -/
def Tells (f : α → String) (R : α → α → Prop) (x : α) : Prop := ∀ (y : α) (r s : List Char),
  Ends isInner r → Ends isInner s → (f x).toList ++ r = (f y).toList ++ s → R x y ∧ r = s

/-- Lists of parts that are written alike have the same parts, if the text of each tells it. After the first part both
texts go on with the closing bracket or both with a separator. -/
theorem listed_inj {R : α → α → Prop} (outer : isInner close = false) (notSeparator : close ≠ ',')
    (starts : ∀ x, ∃ c cs, (f x).toList = c :: cs ∧ isInner c = true) {xs : List α}
    (each : ∀ x ∈ xs, Tells f R x) :
    ∀ {ys : List α}, listed f xs (close :: r) = listed f ys (close :: s) → List.Forall₂ R xs ys ∧ r = s := by
  -- No part begins with the closing bracket, so the two lists end together.
  have apart : ∀ x xs r s, close :: r ≠ listed f (x :: xs) (close :: s) := by
    intro x xs r s h
    obtain ⟨c, cs, text, inner⟩ := starts x
    rw [listed_cons, text, List.cons_append] at h
    rw [(List.cons.inj h).1, inner] at outer
    cases outer
  induction xs with
  | nil =>
    intro ys h
    rw [listed_nil] at h
    cases ys with
    | nil => exact ⟨.nil, (List.cons.inj (h.trans (listed_nil _))).2⟩
    | cons y ys => exact absurd h (apart y ys r s)
  | cons x xs ih =>
    intro ys h
    cases ys with
    | nil => exact absurd (h.trans (listed_nil _)).symm (apart x xs s r)
    | cons y ys =>
      rw [listed_cons, listed_cons] at h
      obtain ⟨first, rest⟩ := each x List.mem_cons_self y _ _ (ends_after outer xs) (ends_after outer ys) h
      suffices same : listed f xs (close :: r) = listed f ys (close :: s) by
        obtain ⟨later, end_⟩ := ih (fun x hx => each x (List.mem_cons_of_mem _ hx)) same
        exact ⟨.cons first later, end_⟩
      cases xs with
      | nil =>
        cases ys with
        | nil => rw [listed_nil, listed_nil]; exact rest
        | cons y ys => exact absurd (List.cons.inj rest).1 notSeparator
      | cons x xs =>
        cases ys with
        | nil => exact absurd (List.cons.inj rest).1.symm notSeparator
        | cons y ys => exact (List.cons.inj (List.cons.inj rest).2).2

end Parts

/-! ## Values -/

theorem toList_list_append (items : List Json) (rest : List Char) :
    (canonical (.list items)).toList ++ rest = '[' :: listed canonical items (']' :: rest) := by
  simp [canonical_list, listed]

theorem toList_object_append (fields : Fields) (rest : List Char) :
    (canonical (.object fields)).toList ++ rest = '\x7b' :: listed lineOf (inOrder fields) ('\x7d' :: rest) := by
  simp [canonical_object, listed]

theorem toList_lineOf_append (f : String × Json) (rest : List Char) :
    (lineOf f).toList ++ rest = (quoted f.1).toList ++ (':' :: ' ' :: (f.2.canonical.toList ++ rest)) := by
  simp [lineOf, fieldText]

theorem lineOf_eq_cons (f : String × Json) : ∃ c cs, (lineOf f).toList = c :: cs ∧ isInner c = true := by
  have text := toList_lineOf_append f []
  rw [List.append_nil, toList_quoted_append] at text
  exact ⟨'"', _, text, rfl⟩

theorem isWord_iff_opening (a : Json) : a.isWord = true ↔ a.opening = none := by
  cases a <;> simp [isWord, opening]

theorem alike_of_word (word : a.isWord = true) : Alike a a := by
  cases a with
  | null => exact .null
  | bool t => exact .bool t
  | whole n => exact .whole n
  | real x => exact .real x
  | text _ | list _ | object _ => cases word

theorem tells_word (word : a.isWord = true) : Tells canonical Alike a := by
  intro b r s hr hs h
  have word' : b.isWord = true := by rwa [isWord_iff_opening, ← opening_eq h, ← isWord_iff_opening]
  obtain ⟨text, rest⟩ := append_inj_of_ends (fun c hc => (plain_of_mem_word word hc).1)
    (fun c hc => (plain_of_mem_word word' hc).1) hr hs h
  obtain rfl := word_inj word word' (String.toList_inj.mp text)
  exact ⟨alike_of_word word, rest⟩

theorem tells_text (t : String) : Tells canonical Alike (.text t) := by
  intro b r s _ _ h
  have first := opening_eq h
  cases b with
  | text t' =>
    rw [canonical, canonical] at h
    obtain ⟨rfl, rest⟩ := quoted_append_inj h
    exact ⟨.text t, rest⟩
  | null | bool _ | whole _ | real _ | list _ | object _ => simp [opening] at first

theorem tells_list {xs : List Json} (each : ∀ x ∈ xs, Tells canonical Alike x) : Tells canonical Alike (.list xs) := by
  intro b r s _ _ h
  have first := opening_eq h
  cases b with
  | list ys =>
    rw [toList_list_append, toList_list_append] at h
    have starts : ∀ x : Json, ∃ c cs, x.canonical.toList = c :: cs ∧ isInner c = true := fun x => by
      obtain ⟨c, cs, text, inner, -⟩ := canonical_eq_cons x
      exact ⟨c, cs, text, inner⟩
    obtain ⟨items, rest⟩ := listed_inj rfl (by decide) starts each (List.cons.inj h).2
    obtain ⟨length, items⟩ := List.forall₂_iff_zip.mp items
    exact ⟨.list length fun _ _ => items, rest⟩
  | null | bool _ | whole _ | real _ | text _ | object _ => simp [opening] at first

theorem tells_object {fs : Fields} (each : ∀ f ∈ fs, Tells canonical Alike f.2) :
    Tells canonical Alike (.object fs) := by
  intro b r s _ _ h
  have first := opening_eq h
  cases b with
  | object gs =>
    rw [toList_object_append, toList_object_append] at h
    have eachLine : ∀ f ∈ inOrder fs, Tells lineOf (fun f g => f.1 = g.1 ∧ Alike f.2 g.2) f := by
      intro f hf g r s hr hs line
      rw [toList_lineOf_append, toList_lineOf_append] at line
      obtain ⟨key, values⟩ := quoted_append_inj line
      obtain ⟨value, rest⟩ := each f (List.mem_mergeSort.mp hf) _ _ _ hr hs (List.cons.inj (List.cons.inj values).2).2
      exact ⟨⟨key, value⟩, rest⟩
    obtain ⟨fields, rest⟩ := listed_inj rfl (by decide) lineOf_eq_cons eachLine (List.cons.inj h).2
    obtain ⟨length, fields⟩ := List.forall₂_iff_zip.mp fields
    exact ⟨.object (List.mergeSort_perm fs _).symm (List.mergeSort_perm gs _).symm
      (map_eq_map_iff_zip.mpr ⟨length, fun _ _ hfg => (fields hfg).1⟩) fun _ _ hfg => (fields hfg).2, rest⟩
  | null | bool _ | whole _ | real _ | text _ | list _ => simp [opening] at first

/-- By recursion over the value: an item of a list and the value of a field are smaller. -/
theorem tells : ∀ a : Json, Tells canonical Alike a
  | .null => tells_word rfl
  | .bool _ => tells_word rfl
  | .whole _ => tells_word rfl
  | .real _ => tells_word rfl
  | .text t => tells_text t
  | .list _ => tells_list fun x _ => tells x
  | .object fields => tells_object fun f hf =>
    have : sizeOf f.2 < sizeOf fields := by
      have := List.sizeOf_lt_of_mem hf
      obtain ⟨key, value⟩ := f
      rw [Prod.mk.sizeOf_spec] at this
      show sizeOf value < sizeOf fields
      omega
    tells f.2

/-- Values with one text are alike. -/
theorem alike_of_canonical_eq (h : canonical a = canonical b) : Alike a b :=
  (tells a b [] [] ends_nil ends_nil (by rw [h])).1

theorem canonical_eq_iff (keyed : a.Keyed) : canonical a = canonical b ↔ Alike a b :=
  ⟨alike_of_canonical_eq, fun alike => alike.canonical_eq keyed⟩

end Json

namespace Node

open Json (Alike Keyed)

/-- The text by which the parameters of a node are identified, and its bytes, are those of other parameters if and only
if these differ in nothing but the order of keys. An integer and a double always differ, as do a truth value and an
integer, and doubles differ unless they are one, zero and negative zero being two. -/
theorem canonicalParams_eq_iff (p q : Node) (keyed : (Json.object p.params).Keyed) :
    (p.canonicalParams = q.canonicalParams ↔ Alike (.object p.params) (.object q.params)) ∧
      (p.canonicalParams.toUTF8 = q.canonicalParams.toUTF8 ↔ Alike (.object p.params) (.object q.params)) ∧
      (∀ n x, ¬Alike (.whole n) (.real x) ∧ ¬Alike (.real x) (.whole n)) ∧
      (∀ t n, ¬Alike (.bool t) (.whole n) ∧ ¬Alike (.whole n) (.bool t)) ∧
      (∀ x y, Alike (.real x) (.real y) ↔ x = y) ∧ (0.0 : Float) ≠ -0.0 := by
  have text := Json.canonical_eq_iff (b := .object q.params) keyed
  refine ⟨text, ?_, fun n x => ⟨nofun, nofun⟩, fun t n => ⟨nofun, nofun⟩, fun x y => ⟨fun alike => ?_, ?_⟩, ?_⟩
  · rw [← text]
    exact String.toByteArray_inj
  · cases alike
    rfl
  · rintro rfl
    exact .real x
  · decide +kernel

/-- A wave with an object among its parameters. -/
def styledWave : Node := ⟨.text "n", .wave, [("k", .whole 1), ("style", .object [("é", .null), ("x", .real (-0.0))])]⟩

/-- The same keys in another order at both levels. -/
def styledWaveExchanged : Node :=
  ⟨.text "n", .wave, [("style", .object [("x", .real (-0.0)), ("é", .null)]), ("k", .whole 1)]⟩

/-- The same keys with a double in the place of the integer. -/
def styledWaveRecast : Node :=
  ⟨.text "n", .wave, [("k", .real 1.0), ("style", .object [("é", .null), ("x", .real (-0.0))])]⟩

/-- The first two have one text, the first and the third have not. -/
theorem canonicalParams_eq_iff_exchanged : (Json.object styledWave.params).Keyed ∧
    styledWave.canonicalParams = styledWaveExchanged.canonicalParams ∧
    styledWave.canonicalParams ≠ styledWaveRecast.canonicalParams := by
  have style : (Json.object [("é", .null), ("x", .real (-0.0))]).Keyed :=
    .object (by decide) (List.forall_mem_cons.mpr ⟨.null, List.forall_mem_cons.mpr ⟨.real _, nofun⟩⟩)
  have keyed : (Json.object styledWave.params).Keyed :=
    .object (by decide) (List.forall_mem_cons.mpr ⟨.whole 1, List.forall_mem_cons.mpr ⟨style, nofun⟩⟩)
  refine ⟨keyed, (canonicalParams_eq_iff styledWave styledWaveExchanged keyed).1.mpr ?_, fun same => ?_⟩
  · refine .object (List.Perm.swap _ _ _) (List.Perm.refl _) rfl fun f g hfg => ?_
    rcases List.mem_cons.mp hfg with first | hfg
    · obtain ⟨rfl, rfl⟩ := Prod.mk.inj first
      refine .object (List.Perm.swap _ _ _) (List.Perm.refl _) rfl fun f g hfg => ?_
      rcases List.mem_cons.mp hfg with first | hfg
      · obtain ⟨rfl, rfl⟩ := Prod.mk.inj first
        exact .real _
      · obtain ⟨rfl, rfl⟩ := Prod.mk.inj (List.mem_singleton.mp hfg)
        exact .null
    · obtain ⟨rfl, rfl⟩ := Prod.mk.inj (List.mem_singleton.mp hfg)
      exact .whole 1
  · have alike := (canonicalParams_eq_iff styledWave styledWaveRecast keyed).1.mp same
    obtain ⟨g, hg, key, value⟩ := alike.exists_field (f := ("k", .whole 1)) List.mem_cons_self
    rcases List.mem_cons.mp hg with rfl | hg
    · cases value
    · obtain rfl := List.mem_singleton.mp hg
      exact absurd key (by decide)

end Node

end VectorGraph
