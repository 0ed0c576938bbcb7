import Mathlib.Data.List.TakeWhile
import VectorGraph.Markup.Paint
import VectorGraph.Proofs.Markup.Trees

/-!
Replacing paint attributes keeps markup sane.

Paint is replaced in serialized markup, without regard for what stands inside of values. Nevertheless a
scan goes through the new text as it went through the old one, and comes to the same place
(`scan_stripChars`, `scan_insertChars`): what is taken out holds two quotes and follows on a blank, what is
put in holds quotes in pairs, and behind a blank, a quote or the end of a name nothing is left open.
-/
namespace VectorGraph.Markup

variable {rules : Rules} {s s' : Scan} {c : Char} {cs : List Char}

/-! ## Characters that leave nothing open -/

/-- Characters behind which nothing is left open but a value. -/
def resets (c : Char) : Bool := !isIdChar c && !(['"', '=', '(', '#', ')'].contains c)

theorem toNat_of_isIdChar (h : isIdChar c = true) : c.toNat = 45 ∨ c.toNat = 95 ∨
    (48 ≤ c.toNat ∧ c.toNat ≤ 57) ∨ (65 ≤ c.toNat ∧ c.toNat ≤ 90) ∨
    (97 ≤ c.toNat ∧ c.toNat ≤ 122) := by
  change ((decide ('A'.val ≤ c.val ∧ c.val ≤ 'Z'.val) || (decide ('a'.val ≤ c.val) && decide (c.val ≤ 'z'.val))
    || (decide ('0'.val ≤ c.val) && decide (c.val ≤ '9'.val))) || c == '_' || c == '-') = true at h
  simp only [Bool.or_eq_true, Bool.and_eq_true, decide_eq_true_eq, UInt32.le_iff_toNat_le, beq_iff_eq] at h
  rcases h with ((h | h) | rfl) | rfl
  · rcases h with h | h
    · exact .inr (.inr (.inr (.inl h)))
    · exact .inr (.inr (.inr (.inr h)))
  · exact .inr (.inr (.inl h))
  · exact .inr (.inl rfl)
  · exact .inl rfl

theorem resets_of_isBlankChar (h : isBlankChar c = true) : resets c = true := by
  have notId : isIdChar c = false := by
    by_contra id
    rw [Bool.not_eq_false] at id
    have range := toNat_of_isIdChar id
    simp only [isBlankChar, Bool.or_eq_true, Bool.and_eq_true, decide_eq_true_eq, beq_iff_eq] at h
    omega
  have notSpecial : ['"', '=', '(', '#', ')'].contains c = false := by
    by_contra special
    simp only [Bool.not_eq_false, List.contains_iff_mem, List.mem_cons, List.not_mem_nil, or_false]
      at special
    rcases special with rfl | rfl | rfl | rfl | rfl <;> revert h <;> decide
  unfold resets
  rw [notId, notSpecial]
  rfl

theorem resets_of_endsName (h : Paint.endsName c = true) : resets c = true := by
  simp only [Paint.endsName, Bool.or_eq_true, beq_iff_eq] at h
  rcases h with (blank | rfl) | rfl
  · exact resets_of_isBlankChar blank
  · decide
  · decide

theorem next_resets (h : resets c = true) : s.next rules c =
    match s.hunt with
    | .seeking _ => some ⟨s.inside, 0, .seeking 0⟩
    | .naming _ => none := by
  -- No character that the scan singles out resets it, so this one is none of them.
  have off : ∀ d : Char, resets d = false → c ≠ d := by
    rintro d hd rfl
    rw [h] at hd
    cases hd
  have special := And.intro (off '"' (by decide)) (off 'i' (by decide))
  have level : nextLevel s.level c = 0 := by
    simp [nextLevel, off 'i' (by decide), off 'd' (by decide), off '=' (by decide)]
  have hunt : s.hunt.next rules.known c =
      match s.hunt with
      | .seeking _ => some (.seeking 0)
      | .naming _ => none := by
    cases s.hunt with
    | seeking k =>
      rcases k with _ | _ | _ | _ | _ | k <;>
        simp [Hunt.next, opening, (off 'u' (by decide)), (off 'u' (by decide)).symm,
          (off 'r' (by decide)).symm, (off 'l' (by decide)).symm, (off '(' (by decide)).symm,
          (off '#' (by decide)).symm]
    | naming id =>
      have notId : isIdChar c = false := by
        rw [resets, Bool.and_eq_true, Bool.not_eq_true'] at h
        exact h.1
      simp [Hunt.next, off ')' (by decide), notId]
  unfold Scan.next
  rw [hunt, level]
  cases s.hunt with
  | naming id => rfl
  | seeking k =>
    cases inside : s.inside <;> simp [special.1]

/-- Two such characters lead to the same place. -/
theorem next_resets_eq {d : Char} (hc : resets c = true) (hd : resets d = true) :
    s.next rules c = s.next rules d := by
  rw [next_resets hc, next_resets hd]

theorem next_of_resets (h : resets c = true) (read : s.next rules c = some s') :
    s' = ⟨s.inside, 0, .seeking 0⟩ := by
  rw [next_resets h] at read
  split at read
  · exact (Option.some.inj read).symm
  · cases read

theorem next_quote (h : s.next rules '"' = some s') : s' = ⟨!s.inside, 0, .seeking 0⟩ := by
  unfold Scan.next at h
  obtain ⟨hunt, hh, h⟩ := Option.bind_eq_some_iff.mp h
  rw [if_pos rfl] at h
  obtain rfl := Option.some.inj h
  have closed : hunt = .seeking 0 := by
    cases hs : s.hunt with
    | naming id =>
      rw [hs] at hh
      simp [Hunt.next, isIdChar] at hh
    | seeking k =>
      rw [hs] at hh
      rcases k with _ | _ | _ | _ | _ | k <;> simp [Hunt.next, opening] at hh <;> exact hh.symm
  rw [closed]

/-- Without quotes a scan stays inside of a value, or outside. -/
theorem inside_of_scan (cs : List Char) (unquoted : '"' ∉ cs) : ∀ {s s' : Scan},
    scan rules s cs = some s' → s'.inside = s.inside := by
  induction cs with
  | nil =>
    intro s s' h
    rw [Option.some.inj h]
  | cons c cs ih =>
    intro s s' h
    obtain ⟨t, ht, h⟩ := Option.bind_eq_some_iff.mp h
    rw [ih (fun mem => unquoted (List.mem_cons_of_mem c mem)) h]
    have hc : c ≠ '"' := fun eq => unquoted (eq ▸ List.mem_cons_self)
    unfold Scan.next at ht
    obtain ⟨hunt, -, ht⟩ := Option.bind_eq_some_iff.mp ht
    rw [if_neg hc] at ht
    cases inside : s.inside with
    | true =>
      rw [inside, if_pos rfl] at ht
      rw [← Option.some.inj ht]
    | false =>
      rw [inside, if_neg Bool.false_ne_true] at ht
      split at ht
      · cases ht
      · rw [← Option.some.inj ht]

/-! ## Taking attributes out -/

/-- What `afterAttribute?` skips. -/
theorem eq_of_afterAttribute? {name cs rest : List Char} (h : Paint.afterAttribute? name cs = some rest) :
    ∃ value, '"' ∉ value ∧ cs = name ++ '=' :: '"' :: (value ++ '"' :: rest) := by
  unfold Paint.afterAttribute? at h
  dsimp only at h
  split at h
  · next lead =>
    obtain ⟨tail, rfl⟩ := List.isPrefixOf_iff_prefix.mp lead
    rw [List.drop_left] at h
    split at h
    · next quote rest' found =>
      obtain rfl := Option.some.inj h
      have split := List.takeWhile_append_dropWhile (p := (· != '"')) (l := tail)
      have isQuote : quote = '"' := by
        have head := List.head_dropWhile_not (· != '"') (by rw [found]; exact List.cons_ne_nil _ _)
        simpa [found] using head
      refine ⟨tail.takeWhile (· != '"'), fun mem => ?_, ?_⟩
      · have other := List.mem_takeWhile_imp mem
        simp at other
      · rw [found, isQuote] at split
        rw [List.append_assoc, split]
        rfl
    · cases h
  · cases h

/-- An attribute behind a blank is passed as a blank alone would be. -/
theorem scan_attribute {name value rest : List Char} (named : '"' ∉ name) (unquoted : '"' ∉ value)
    (blank : isBlankChar c = true)
    (h : scan rules s (c :: (name ++ '=' :: '"' :: (value ++ '"' :: rest))) = some s') :
    scan rules s (' ' :: rest) = some s' := by
  obtain ⟨t, ht, h⟩ := Option.bind_eq_some_iff.mp h
  have hc := resets_of_isBlankChar blank
  have lead : name ++ '=' :: '"' :: (value ++ '"' :: rest) =
      (name ++ ['=']) ++ '"' :: (value ++ '"' :: rest) := by simp
  rw [lead, scan_append] at h
  obtain ⟨t₁, h₁, h⟩ := Option.bind_eq_some_iff.mp h
  obtain ⟨t₂, h₂, h⟩ := Option.bind_eq_some_iff.mp h
  rw [scan_append] at h
  obtain ⟨t₃, h₃, h⟩ := Option.bind_eq_some_iff.mp h
  obtain ⟨t₄, h₄, h⟩ := Option.bind_eq_some_iff.mp h
  have same : t₄ = t := by
    have nameless : '"' ∉ name ++ ['='] := by simp [named]
    have inside := inside_of_scan _ nameless h₁
    have inside' := inside_of_scan _ unquoted h₃
    rw [next_quote h₄, inside', next_quote h₂, inside, next_of_resets hc ht, Bool.not_not]
  unfold scan
  rw [next_resets_eq (d := c) (by decide) hc, ht, ← same]
  exact h

/-- A scan goes through a text without an attribute as through the text. -/
theorem scan_stripChars {name : List Char} (named : '"' ∉ name) (cs : List Char) : ∀ {s s' : Scan},
    scan rules s cs = some s' → scan rules s (Paint.stripChars name cs) = some s' := by
  fun_induction Paint.stripChars name cs with
  | case1 => exact fun h => h
  | case2 c cs blank rest found ih =>
    intro s s' h
    obtain ⟨value, unquoted, rfl⟩ := eq_of_afterAttribute? found
    obtain ⟨t, ht, h⟩ := Option.bind_eq_some_iff.mp (scan_attribute named unquoted blank h)
    unfold scan
    rw [ht]
    exact ih h
  | case3 c cs blank found ih =>
    intro s s' h
    obtain ⟨t, ht, h⟩ := Option.bind_eq_some_iff.mp h
    unfold scan
    rw [ht]
    exact ih h
  | case4 c cs blank ih =>
    intro s s' h
    obtain ⟨t, ht, h⟩ := Option.bind_eq_some_iff.mp h
    unfold scan
    rw [ht]
    exact ih h

/-! ## Putting attributes in -/

/-- Attributes that may be put anywhere: they hold quotes in pairs and nothing that counts. -/
def Inert (rules : Rules) (attributes : List Char) : Prop :=
  ∀ inside, scan rules ⟨inside, 0, .seeking 0⟩ attributes = some ⟨inside, 0, .seeking 0⟩

namespace Inert

variable {more : List Char}

theorem append (h : Inert rules cs) (h' : Inert rules more) : Inert rules (cs ++ more) := by
  intro inside
  rw [scan_append_of (h inside)]
  exact h' inside

theorem blank : Inert rules [' '] := by
  intro inside
  cases inside <;> simp [scan, Scan.next, Hunt.next, opening, nextLevel]

/-- Plain characters are passed inside of values and outside. -/
theorem scan_plain_from (rules : Rules) (inside : Bool) (k : Nat) (plain : cs.all isPlain = true) :
    ∃ l k', scan rules ⟨inside, 0, .seeking k⟩ cs = some ⟨inside, l, .seeking k'⟩ ∧
      (inside = false → l = cs.foldl nextLevel 0) := by
  cases inside with
  | false =>
    obtain ⟨k', read⟩ := scan_plain rules cs plain 0 k
    exact ⟨_, k', read, fun _ => rfl⟩
  | true =>
    obtain ⟨k', read⟩ := follow_plain cs plain k
    exact ⟨0, k', scan_inside cs (fun mem => (not_mem_of_plain plain mem).1 rfl) read, fun h => by cases h⟩

theorem next_mark (rules : Rules) {l : Nat} (k : Nat) {inside : Bool} (level : inside = false → nextLevel l '=' ≠ 3) :
    ∃ l', Scan.next rules ⟨inside, l, .seeking k⟩ '=' = some ⟨inside, l', .seeking 0⟩ := by
  have hunt : Hunt.next rules.known (.seeking k) '=' = some (.seeking 0) := by
    rcases k with _ | _ | _ | _ | _ | k <;> simp [Hunt.next, opening]
  have other : ¬ '=' = '"' := by decide
  unfold Scan.next
  rw [hunt]
  cases inside with
  | false => exact ⟨nextLevel l '=', by simp [other, level rfl]⟩
  | true => exact ⟨0, by simp [other]⟩

theorem next_quote_seeking {l k : Nat} {inside : Bool} :
    Scan.next rules ⟨inside, l, .seeking k⟩ '"' = some ⟨!inside, 0, .seeking 0⟩ := by
  rcases k with _ | _ | _ | _ | _ | k <;> simp [Scan.next, Hunt.next, opening]

/-- An attribute with a plain value may be put anywhere. -/
theorem of_plain {name value : String} (named : isName name = true) (other : name ≠ "id")
    (plain : value.toList.all isPlain = true) :
    Inert rules (name.toList ++ '=' :: '"' :: (value.toList ++ ['"'])) := by
  intro inside
  obtain ⟨l, k, first, level⟩ := scan_plain_from rules inside 0 (isPlain_of_isName named)
  obtain ⟨l', mark⟩ := next_mark rules k fun outside => level outside ▸ nextLevel_name named other
  obtain ⟨l'', k'', middle, -⟩ := scan_plain_from rules (!inside) 0 plain
  rw [scan_append_of first]
  unfold scan
  rw [mark, Option.bind_some]
  unfold scan
  rw [next_quote_seeking, Option.bind_some, scan_append_of middle]
  unfold scan
  rw [next_quote_seeking, Option.bind_some, Bool.not_not]
  rfl

end Inert

theorem eq_of_afterTag? {tag cs rest : List Char} (h : Paint.afterTag? tag cs = some (c, rest)) :
    cs = tag ++ c :: rest ∧ Paint.endsName c = true := by
  unfold Paint.afterTag? at h
  split at h
  · next lead =>
    obtain ⟨tail, rfl⟩ := List.isPrefixOf_iff_prefix.mp lead
    rw [List.drop_left] at h
    cases tail with
    | nil => cases h
    | cons d more =>
      dsimp only at h
      split at h
      · next ends =>
        obtain ⟨rfl, rfl⟩ := Prod.mk.inj (Option.some.inj h)
        exact ⟨rfl, ends⟩
      · cases h
  · cases h

/-- A scan goes through a text with attributes put in as through the text. -/
theorem scan_insertChars {tag attributes : List Char} (inert : Inert rules attributes) (cs : List Char) :
    ∀ {s s' : Scan}, scan rules s cs = some s' →
      scan rules s (Paint.insertChars tag (Template.plain attributes ++ [.delimiter]) cs) = some s' := by
  fun_induction Paint.insertChars tag (Template.plain attributes ++ [.delimiter]) cs with
  | case1 => exact fun h => h
  | case2 cs d rest found ih =>
    intro s s' h
    obtain ⟨rfl, ends⟩ := eq_of_afterTag? found
    have hd := resets_of_endsName ends
    have fill : Template.fill (Template.plain attributes ++ [.delimiter]) ('<' :: tag ++ [d]) d =
        attributes ++ [d] := by
      simp [Template.fill, Template.plain, List.flatMap_map]
    have text : '<' :: tag ++ ' ' :: (attributes ++ [d]) ++
        Paint.insertChars tag (Template.plain attributes ++ [.delimiter]) rest =
        ('<' :: tag) ++ ' ' :: (attributes ++ d ::
          Paint.insertChars tag (Template.plain attributes ++ [.delimiter]) rest) := by simp
    rw [fill, text]
    rw [← List.cons_append, scan_append] at h
    obtain ⟨t, ht, h⟩ := Option.bind_eq_some_iff.mp h
    rw [scan_append_of ht]
    obtain ⟨t', ht', h⟩ := Option.bind_eq_some_iff.mp h
    have place := next_of_resets hd ht'
    -- Inert attributes leave the scan as the blank before them did, and there the delimiter reads as in its place.
    have stays : Scan.next rules ⟨t.inside, 0, .seeking 0⟩ d = some t' := by
      rw [next_resets hd, place]
    unfold scan
    rw [next_resets_eq (d := d) (by decide) hd, ht', place, Option.bind_some,
      scan_append_of (inert t.inside)]
    unfold scan
    rw [stays]
    exact ih h
  | case3 cs found ih =>
    intro s s' h
    obtain ⟨t, ht, h⟩ := Option.bind_eq_some_iff.mp h
    unfold scan
    rw [ht]
    exact ih h
  | case4 c cs other ih =>
    intro s s' h
    obtain ⟨t, ht, h⟩ := Option.bind_eq_some_iff.mp h
    unfold scan
    rw [ht]
    exact ih h

/-- Markup is sane after its paint has been replaced. -/
theorem Sane.repaint {markup attributes : String} {names : List String} (h : Sane rules markup)
    (named : ∀ name ∈ names, '"' ∉ name.toList) (inert : Inert rules attributes.toList) :
    Sane rules (Paint.insertAttributes (Paint.stripAttributes markup names) attributes) := by
  have strip : ∀ (names : List String) (cs : List Char), (∀ name ∈ names, '"' ∉ name.toList) →
      scan rules {} cs = some {} →
      scan rules {} (names.foldl (fun cs name => Paint.stripChars name.toList cs) cs) = some {} := by
    intro names
    induction names with
    | nil => exact fun _ _ h => h
    | cons name rest ih =>
      intro cs named h
      exact ih _ (fun other mem => named other (List.mem_cons_of_mem name mem))
        (scan_stripChars (named name List.mem_cons_self) cs h)
  have insert : ∀ (tags : List String) (cs : List Char), scan rules {} cs = some {} →
      scan rules {} (tags.foldl (fun cs tag =>
        Paint.insertChars tag.toList (Template.plain attributes.toList ++ [.delimiter]) cs) cs) = some {} := by
    intro tags
    induction tags with
    | nil => exact fun _ h => h
    | cons tag rest ih => exact fun cs h => ih _ (scan_insertChars inert cs h)
  unfold Sane Paint.insertAttributes Paint.insertTemplate Paint.stripAttributes
  rw [String.toList_ofList, String.toList_ofList]
  exact insert _ _ (strip names _ named h)

end VectorGraph.Markup
