import VectorGraph.Markup.Element
import VectorGraph.Proofs.Markup.Scan

/-!
Markup trees whose texts keep to the rules.

Text outside of values may stop anywhere, so pieces of a tag only pass from one place outside of values to
another (`Passes`); an angle bracket closes the tag and leaves nothing open. A tree is sound if its names
are names, its values are fit to stand between quotes, and the serialized markup that it takes over is
sane. Then its text is sane and defines the ids that the tree has (`Sound.text`).
-/
namespace VectorGraph.Markup

variable {rules : Rules} {known : List String} {x y : List Char} {ids more : List String}

/-! ## Values -/

/-- A value that may stand between quotes and refers to known ids only. -/
def Fit (known : List String) (value : String) : Prop :=
  '"' ∉ value.toList ∧ ∃ k, follow known (.seeking 0) value.toList = some (.seeking k)

/-- Inside of a value only references count. -/
theorem scan_inside (cs : List Char) (unquoted : '"' ∉ cs) : ∀ {h h' : Hunt},
    follow rules.known h cs = some h' → scan rules ⟨true, 0, h⟩ cs = some ⟨true, 0, h'⟩ := by
  induction cs with
  | nil =>
    intro h h' read
    rw [← Option.some.inj read]
    rfl
  | cons c cs ih =>
    intro h h' read
    obtain ⟨m, hm, read⟩ := Option.bind_eq_some_iff.mp read
    have hc : c ≠ '"' := fun eq => unquoted (eq ▸ List.mem_cons_self)
    have step : Scan.next rules ⟨true, 0, h⟩ c = some ⟨true, 0, m⟩ := by
      unfold Scan.next
      rw [hm]
      simp [hc]
    unfold scan
    rw [step]
    exact ih (fun mem => unquoted (List.mem_cons_of_mem c mem)) read

theorem Fit.scan {value : String} (h : Fit rules.known value) :
    ∃ k, Markup.scan rules ⟨true, 0, .seeking 0⟩ value.toList = some ⟨true, 0, .seeking k⟩ := by
  obtain ⟨unquoted, k, read⟩ := h
  exact ⟨k, scan_inside _ unquoted read⟩

/-- Characters that begin and end nothing: no quote, no equals sign and no number sign. -/
def isPlain (c : Char) : Bool := c != '"' && c != '=' && c != '#'

theorem Hunt.next_plain (known : List String) {c : Char} (plain : isPlain c = true) (k : Nat) :
    ∃ k', Hunt.next known (.seeking k) c = some (.seeking k') := by
  unfold Hunt.next
  dsimp only
  split
  · next here =>
    by_cases last : k = 4
    · subst last
      obtain rfl : '#' = c := Option.some.inj here
      exact absurd plain (by decide)
    · exact ⟨k + 1, by rw [if_neg last]⟩
  · exact ⟨_, rfl⟩

theorem follow_plain (cs : List Char) (plain : cs.all isPlain = true) : ∀ k,
    ∃ k', follow known (.seeking k) cs = some (.seeking k') := by
  induction cs with
  | nil => exact fun k => ⟨k, rfl⟩
  | cons c cs ih =>
    intro k
    rw [List.all_cons, Bool.and_eq_true] at plain
    obtain ⟨m, hm⟩ := Hunt.next_plain known plain.1 k
    unfold follow
    rw [hm]
    exact ih plain.2 m

theorem not_mem_of_plain {c : Char} {cs : List Char} (plain : cs.all isPlain = true) (mem : c ∈ cs) :
    c ≠ '"' ∧ c ≠ '=' ∧ c ≠ '#' := by
  have h := List.all_eq_true.mp plain c mem
  simpa [isPlain, and_assoc] using h

/-- Plain values are fit. -/
theorem fit_of_plain {value : String} (plain : value.toList.all isPlain = true) : Fit known value :=
  ⟨fun mem => (not_mem_of_plain plain mem).1 rfl, follow_plain _ plain 0⟩

/-- A text that never says `url(#` is read without a reference. -/
theorem follow_of_absent (cs : List Char) : ∀ k ≤ 4, ¬ opening <:+: opening.take k ++ cs →
    ∃ k', follow known (.seeking k) cs = some (.seeking k') := by
  induction cs with
  | nil => exact fun k _ _ => ⟨k, rfl⟩
  | cons c cs ih =>
    intro k hk absent
    by_cases here : opening[k]? = some c
    · have whole : opening.take k ++ c :: cs = opening.take (k + 1) ++ cs := by
        rw [List.take_add_one, here, List.append_assoc]
        rfl
      rw [whole] at absent
      have hk' : k ≠ 4 := by
        rintro rfl
        exact absent (List.prefix_append opening cs).isInfix
      obtain ⟨k', rest⟩ := ih (k + 1) (by omega) absent
      refine ⟨k', ?_⟩
      simpa [follow, Hunt.next, here, hk'] using rest
    · -- what was read is given up, but for a `u` that may begin anew
      have later : ¬ opening <:+: opening.take (if c = 'u' then 1 else 0) ++ cs := by
        intro found
        refine absent (found.trans ((List.IsSuffix.trans ?_ (List.suffix_append _ _)).isInfix))
        split
        · next hu =>
          rw [hu]
          exact List.suffix_refl _
        · exact List.suffix_cons c cs
      obtain ⟨k', rest⟩ := ih _ (by split <;> omega) later
      refine ⟨k', ?_⟩
      simpa [follow, Hunt.next, here] using rest

/-- What is said between quotes is fit if it holds no quote and never says `url(#`. -/
theorem fit_of_absent {value : String} (unquoted : '"' ∉ value.toList)
    (absent : ¬ opening <:+: value.toList) : Fit known value :=
  ⟨unquoted, follow_of_absent _ 0 (Nat.zero_le 4) absent⟩

/-- A value without quotes and number signs is fit. -/
theorem fit_of_not_mem {value : String} (unquoted : '"' ∉ value.toList) (unmarked : '#' ∉ value.toList) :
    Fit known value :=
  fit_of_absent unquoted fun found => unmarked (found.subset (by decide))

/-- A reference to an id that is known is fit. -/
theorem fit_reference {id : String} (mem : id ∈ known) (chars : ∀ c ∈ id.toList, isIdChar c = true) :
    Fit known (reference id) := by
  have name : ∀ cs word : List Char, (∀ c ∈ cs, isIdChar c = true) →
      follow known (.naming word) cs = some (.naming (cs.reverse ++ word)) := by
    intro cs
    induction cs with
    | nil => exact fun _ _ => rfl
    | cons c cs ih =>
      intro word chars
      have hc := chars c List.mem_cons_self
      have other : c ≠ ')' := by
        rintro rfl
        exact absurd hc (by decide)
      have rest := ih (c :: word) fun d hd => chars d (List.mem_cons_of_mem c hd)
      simpa [follow, Hunt.next, other, hc] using rest
  have text : (reference id).toList = opening ++ (id.toList ++ [')']) := by
    simp [reference, opening]
  refine ⟨fun quote => ?_, 0, ?_⟩
  · rw [text, List.mem_append, List.mem_append] at quote
    rcases quote with quote | quote | quote
    · exact absurd quote (by decide)
    · exact absurd (chars _ quote) (by decide)
    · exact absurd quote (by decide)
  · have opens : follow known (.seeking 0) opening = some (.naming []) := rfl
    rw [text, follow_append, opens, Option.bind_some, follow_append, name _ _ chars, Option.bind_some]
    simp [follow, Hunt.next, mem]

/-! ## Pieces of tags -/

/-- A piece of text that leads from one place outside of values to another, and defines `ids`. -/
structure Passes (rules : Rules) (x : List Char) (ids : List String) : Prop where
  scan : ∀ l k, ∃ l' k', Markup.scan rules ⟨false, l, .seeking k⟩ x = some ⟨false, l', .seeking k'⟩
  read : ∀ r : Reading, r.inside = false → (x.foldl Reading.next r).inside = false ∧
    (x.foldl Reading.next r).found = r.found ++ ids

namespace Passes

theorem append (hx : Passes rules x ids) (hy : Passes rules y more) :
    Passes rules (x ++ y) (ids ++ more) := by
  refine ⟨fun l k => ?_, fun r hr => ?_⟩
  · obtain ⟨l', k', first⟩ := hx.scan l k
    rw [scan_append_of first]
    exact hy.scan l' k'
  · obtain ⟨hr', found⟩ := hx.read r hr
    obtain ⟨hr'', found'⟩ := hy.read _ hr'
    rw [List.foldl_append, found', found, List.append_assoc]
    exact ⟨hr'', rfl⟩

theorem nil : Passes rules [] [] :=
  ⟨fun l k => ⟨l, k, rfl⟩, fun _ hr => ⟨hr, (List.append_nil _).symm⟩⟩

end Passes

theorem nextLevel_ne_three {k : Nat} {c : Char} (h : c ≠ '=') : nextLevel k c ≠ 3 := by
  unfold nextLevel
  split
  · decide
  · split
    · decide
    · rw [if_neg fun both => h both.1]
      decide

/-- Plain characters are passed, and the word before the place grows by them. -/
theorem scan_plain (rules : Rules) (cs : List Char) (plain : cs.all isPlain = true) : ∀ l k,
    ∃ k', scan rules ⟨false, l, .seeking k⟩ cs = some ⟨false, cs.foldl nextLevel l, .seeking k'⟩ := by
  induction cs with
  | nil => exact fun l k => ⟨k, rfl⟩
  | cons c cs ih =>
    intro l k
    obtain ⟨hq, he, -⟩ := not_mem_of_plain plain List.mem_cons_self
    rw [List.all_cons, Bool.and_eq_true] at plain
    obtain ⟨m, hm⟩ := Hunt.next_plain rules.known plain.1 k
    have step : Scan.next rules ⟨false, l, .seeking k⟩ c = some ⟨false, nextLevel l c, .seeking m⟩ := by
      unfold Scan.next
      rw [hm]
      simp [hq, nextLevel_ne_three he]
    obtain ⟨k', rest⟩ := ih plain.2 (nextLevel l c) m
    refine ⟨k', ?_⟩
    unfold scan
    rw [step]
    exact rest

/-- Characters that are no quotes are added to the word. -/
theorem foldl_next_unquoted (cs : List Char) (unquoted : '"' ∉ cs) : ∀ r : Reading,
    cs.foldl Reading.next r = { r with word := cs.reverse ++ r.word } := by
  induction cs with
  | nil => exact fun r => rfl
  | cons c cs ih =>
    intro r
    have hc : c ≠ '"' := fun eq => unquoted (eq ▸ List.mem_cons_self)
    rw [List.foldl_cons, ih fun mem => unquoted (List.mem_cons_of_mem c mem)]
    simp [Reading.next, hc]

theorem passes_plain (plain : x.all isPlain = true) : Passes rules x [] := by
  refine ⟨fun l k => ?_, fun r hr => ?_⟩
  · obtain ⟨k', h⟩ := scan_plain rules x plain l k
    exact ⟨_, k', h⟩
  · rw [foldl_next_unquoted x (fun mem => (not_mem_of_plain plain mem).1 rfl)]
    exact ⟨hr, (List.append_nil _).symm⟩

/-! ## Attributes -/

/-- What elements and attributes are called. A name that ends in `id` is `id`. -/
def isName (name : String) : Bool :=
  name.toList.all (fun c => c.isAlphanum || c == '-') &&
    (name == "id" || !(['d', 'i'].isPrefixOf name.toList.reverse))

theorem isPlain_of_isName {name : String} (h : isName name = true) :
    name.toList.all isPlain = true := by
  rw [isName, Bool.and_eq_true] at h
  rw [List.all_eq_true] at h ⊢
  intro c mem
  have letter := h.1 c mem
  unfold isPlain
  by_contra special
  simp only [Bool.and_eq_true, bne_iff_ne, not_and_or, not_not] at special
  rcases special with (rfl | rfl) | rfl <;> revert letter <;> decide

theorem foldl_nextLevel (cs : List Char) : cs.foldl nextLevel 0 = levelOf cs.reverse := by
  have fold : ∀ cs word : List Char, cs.foldl nextLevel (levelOf word) = levelOf (cs.reverse ++ word) := by
    intro cs
    induction cs with
    | nil => exact fun _ => rfl
    | cons c cs ih =>
      intro word
      rw [List.foldl_cons, List.reverse_cons, List.append_assoc]
      exact ih (c :: word)
  rw [show (0 : Nat) = levelOf [] from rfl, fold, List.append_nil]

theorem prefix_of_levelOf {word : List Char} (h : levelOf word = 2) : ['d', 'i'].isPrefixOf word = true := by
  have one : ∀ word : List Char, levelOf word = 1 → ['i'].isPrefixOf word = true := by
    intro word h
    cases word with
    | nil => cases h
    | cons c rest =>
      rw [levelOf, nextLevel] at h
      split at h
      · next hc => simp [hc]
      · split at h
        · cases h
        · split at h <;> cases h
  cases word with
  | nil => cases h
  | cons c rest =>
    rw [levelOf, nextLevel] at h
    split at h
    · cases h
    · split at h
      · next hd =>
        have hi := one rest hd.2
        simpa [hd.1] using hi
      · split at h <;> cases h

/-- An equals sign is out of order behind `id` only. -/
theorem nextLevel_name {name : String} (h : isName name = true) (other : name ≠ "id") :
    nextLevel (name.toList.foldl nextLevel 0) '=' ≠ 3 := by
  intro full
  have two : name.toList.foldl nextLevel 0 = 2 := by
    by_contra ne
    simp [nextLevel, ne] at full
  rw [foldl_nextLevel] at two
  have ending := prefix_of_levelOf two
  rw [isName, ending, Bool.and_eq_true, Bool.or_eq_true] at h
  rcases h.2 with id | none_
  · exact other (beq_iff_eq.mp id)
  · cases none_

/-- The word before a value tells whether the value is that of an `id`. -/
theorem namesId_name {name : String} (h : isName name = true) (word : List Char) :
    namesId ('=' :: (name.toList.reverse ++ ' ' :: word)) = (name == "id") := by
  rw [isName, Bool.and_eq_true, Bool.or_eq_true] at h
  obtain ⟨letters, ending⟩ := h
  by_cases hid : name = "id"
  · subst hid
    rfl
  · have other : (name == "id") = false := beq_false_of_ne hid
    rw [other] at ending ⊢
    -- A name that ends in `id` would be read backwards as `di`, so its last letters are looked at.
    have noPrefix : ['d', 'i'].isPrefixOf name.toList.reverse = false := by simpa using ending
    generalize name.toList.reverse = rev at noPrefix
    rcases rev with _ | ⟨c, _ | ⟨d, _ | ⟨f, rest⟩⟩⟩
    · rfl
    · unfold namesId
      split
      · next heq => simp at heq
      · rfl
    · unfold namesId
      split
      · next heq =>
        simp only [List.cons_append, List.nil_append, List.cons.injEq] at heq
        obtain ⟨-, rfl, rfl, -⟩ := heq
        cases noPrefix
      · rfl
    · unfold namesId
      split
      · next heq =>
        simp only [List.cons_append, List.cons.injEq] at heq
        obtain ⟨-, rfl, rfl, -⟩ := heq
        cases noPrefix
      · rfl

/-- An attribute that keeps to the rules. -/
structure SoundAttribute (rules : Rules) (a : String × String) : Prop where
  name : isName a.1 = true
  silent : rules.silent = true → a.1 ≠ "id"
  value : Fit rules.known a.2

/-- The ids that attributes define. -/
def idsOf (attributes : Attributes) : List String := (attributes.filter (·.1 == "id")).map (·.2)

theorem toList_attributeText (a : String × String) :
    (attributeText a).toList = ' ' :: (a.1.toList ++ '=' :: '"' :: (a.2.toList ++ ['"'])) := by
  simp [attributeText]

/-- What stands before the value of an attribute leads into the value. -/
theorem scan_lead {name : String} (hn : isName name = true) (silent : rules.silent = true → name ≠ "id")
    (l k : Nat) : scan rules ⟨false, l, .seeking k⟩ (' ' :: (name.toList ++ ['=', '"'])) =
      some ⟨true, 0, .seeking 0⟩ := by
  obtain ⟨k', named⟩ := scan_plain rules _ (isPlain_of_isName hn) 0 0
  have blank : Scan.next rules ⟨false, l, .seeking k⟩ ' ' = some ⟨false, 0, .seeking 0⟩ := by
    rcases k with _ | _ | _ | _ | _ | k <;> simp [Scan.next, Hunt.next, opening, nextLevel]
  have level : rules.silent = true → nextLevel (name.toList.foldl nextLevel 0) '=' ≠ 3 :=
    fun quiet => nextLevel_name hn (silent quiet)
  have equals : Scan.next rules ⟨false, name.toList.foldl nextLevel 0, .seeking k'⟩ '=' =
      some ⟨false, nextLevel (name.toList.foldl nextLevel 0) '=', .seeking 0⟩ := by
    have hunt : Hunt.next rules.known (.seeking k') '=' = some (.seeking 0) := by
      rcases k' with _ | _ | _ | _ | _ | k' <;> simp [Hunt.next, opening]
    unfold Scan.next
    rw [hunt]
    simp only [Option.bind_some, Bool.false_eq_true, if_false]
    rw [if_neg (show ¬ '=' = '"' by decide), if_neg fun both => level both.1 both.2]
  unfold scan
  rw [blank, Option.bind_some, scan_append_of named]
  unfold scan
  rw [equals]
  rfl

theorem SoundAttribute.passes {a : String × String} (h : SoundAttribute rules a) :
    Passes rules (attributeText a).toList (idsOf [a]) := by
  have plain := isPlain_of_isName h.name
  rw [toList_attributeText]
  refine ⟨fun l k => ⟨0, 0, ?_⟩, fun r hr => ?_⟩
  · obtain ⟨k', value⟩ := h.value.scan
    -- Behind the value a reference may be half spelled, but not so far that it names an id; the quote ends it.
    have closes : scan rules ⟨true, 0, .seeking k'⟩ ['"'] = some ⟨false, 0, .seeking 0⟩ := by
      rcases k' with _ | _ | _ | _ | _ | k' <;> simp [scan, Scan.next, Hunt.next, opening]
    have split : ' ' :: (a.1.toList ++ '=' :: '"' :: (a.2.toList ++ ['"'])) =
        ' ' :: (a.1.toList ++ ['=', '"']) ++ (a.2.toList ++ ['"']) := by simp
    rw [split, scan_append_of (scan_lead h.name h.silent l k), scan_append_of value]
    exact closes
  · have unquoted : '"' ∉ (' ' :: (a.1.toList ++ ['='])) := by
      intro mem
      simp only [List.mem_cons, List.mem_append, List.not_mem_nil, or_false] at mem
      rcases mem with eq | mem | eq
      · revert eq
        decide
      · exact (not_mem_of_plain plain mem).1 rfl
      · revert eq
        decide
    have split : (' ' :: (a.1.toList ++ '=' :: '"' :: (a.2.toList ++ ['"']))) =
        (' ' :: (a.1.toList ++ ['='])) ++ '"' :: (a.2.toList ++ ['"']) := by simp
    rw [split, List.foldl_append, foldl_next_unquoted _ unquoted, List.foldl_cons, List.foldl_append]
    have opened : Reading.next { r with word := (' ' :: (a.1.toList ++ ['='])).reverse ++ r.word } '"' =
        { r with inside := true, word := [], named := a.1 == "id" } := by
      unfold Reading.next
      rw [if_pos rfl, hr, if_neg Bool.false_ne_true]
      have word : (' ' :: (a.1.toList ++ ['='])).reverse ++ r.word =
          '=' :: (a.1.toList.reverse ++ ' ' :: r.word) := by simp
      rw [word, namesId_name h.name]
    rw [opened, foldl_next_unquoted _ h.value.1]
    simp only [List.foldl_cons, List.foldl_nil, Reading.next, if_true, List.append_nil,
      List.reverse_reverse, String.ofList_toList]
    refine ⟨trivial, ?_⟩
    cases hid : a.1 == "id" <;> simp [idsOf, hid]

theorem passes_attributes {attributes : Attributes} (h : ∀ a ∈ attributes, SoundAttribute rules a) :
    Passes rules (attributesText attributes).toList (idsOf attributes) := by
  induction attributes with
  | nil => exact .nil
  | cons a rest ih =>
    have first := (h a List.mem_cons_self).passes
    have later := ih fun b hb => h b (List.mem_cons_of_mem a hb)
    have text : (attributesText (a :: rest)).toList =
        (attributeText a).toList ++ (attributesText rest).toList := by
      simp [attributesText, String.join_cons]
    have ids : idsOf (a :: rest) = idsOf [a] ++ idsOf rest := by
      unfold idsOf
      rw [← List.map_append, ← List.filter_append]
      rfl
    rw [text, ids]
    exact first.append later

/-! ## Trees -/

/-- An angle bracket leaves nothing open. -/
theorem Passes.close {text : String} (h : Passes rules text.toList ids) :
    Sane rules (text ++ ">") ∧ Balanced (text ++ ">") ∧ definitions (text ++ ">") = ids := by
  have reads : ∀ r : Reading, r.inside = false →
      ((text ++ ">").toList.foldl Reading.next r).Calm ∧
      ((text ++ ">").toList.foldl Reading.next r).found = r.found ++ ids := by
    intro r hr
    obtain ⟨outside, found⟩ := h.read r hr
    rw [String.toList_append, List.foldl_append]
    refine ⟨⟨outside, rfl⟩, found⟩
  have defines : definitions (text ++ ">") = ids := (reads {} rfl).2
  refine ⟨?_, fun r hr => ?_, defines⟩
  · obtain ⟨l, k, read⟩ := h.scan 0 0
    unfold Sane
    rw [String.toList_append]
    refine (scan_append_of read).trans ?_
    rcases k with _ | _ | _ | _ | _ | k <;> simp [Markup.scan, Scan.next, Hunt.next, opening, nextLevel]
  · rw [defines]
    exact reads r hr.1

mutual

/-- A tree whose text keeps to the rules. -/
def Sound (rules : Rules) : Markup → Prop
  | .raw s => Sane rules s ∧ Balanced s
  | .element name attributes children =>
    isName name = true ∧ (∀ a ∈ attributes, SoundAttribute rules a) ∧ AllSound rules children

def AllSound (rules : Rules) : List Markup → Prop
  | [] => True
  | node :: rest => Sound rules node ∧ AllSound rules rest

end

mutual

/-- The ids that a tree defines, in order. -/
def treeIds : Markup → List String
  | .raw s => definitions s
  | .element _ attributes children => idsOf attributes ++ forestIds children

def forestIds : List Markup → List String
  | [] => []
  | node :: rest => treeIds node ++ forestIds rest

end

theorem passes_tag (rules : Rules) (lead : String) {name : String} (hl : lead.toList.all isPlain = true) (hn : isName name = true) :
    Passes rules (lead ++ name).toList [] := by
  refine passes_plain ?_
  rw [String.toList_append, List.all_append, hl, isPlain_of_isName hn]
  rfl

mutual

/-- The text of a sound tree is sane, and what it defines are the ids of the tree. -/
theorem Sound.text : ∀ {m : Markup}, Sound rules m →
    Sane rules m.text ∧ Balanced m.text ∧ definitions m.text = m.treeIds
  | .raw s, h => by
    unfold Sound at h
    unfold Markup.text treeIds
    exact ⟨h.1, h.2, rfl⟩
  | .element name attributes [], h => by
    unfold Sound at h
    obtain ⟨hn, ha, -⟩ := h
    -- An empty element is one tag.
    have tag := ((passes_tag rules "<" (by decide) hn).append
      (passes_attributes ha)).append (passes_plain (x := ['/']) (by decide))
    have whole : Passes rules ("<" ++ name ++ attributesText attributes ++ "/").toList
        (idsOf attributes) := by
      simpa [String.toList_append] using tag
    have closed := whole.close
    have text : Markup.text (.element name attributes []) =
        "<" ++ name ++ attributesText attributes ++ "/" ++ ">" := by
      unfold Markup.text
      simp only [String.append_assoc]
      rfl
    have defined : treeIds (.element name attributes []) = idsOf attributes := by
      unfold treeIds forestIds
      exact List.append_nil _
    rw [text, defined]
    exact closed
  | .element name attributes (child :: rest), h => by
    unfold Sound at h
    obtain ⟨hn, ha, hc⟩ := h
    unfold AllSound at hc
    -- Otherwise the opening tag, the children and the closing tag are sane one by one, and so is what they make up.
    obtain ⟨sane, balanced, defines⟩ := Sound.text hc.1
    obtain ⟨sane', balanced', defines'⟩ := AllSound.text hc.2
    have tag := (passes_tag rules "<" (by decide) hn).append (passes_attributes ha)
    have whole : Passes rules ("<" ++ name ++ attributesText attributes).toList (idsOf attributes) := by
      simpa [String.toList_append] using tag
    obtain ⟨opens, opensBalanced, opensIds⟩ := whole.close
    obtain ⟨ends, endsBalanced, endsIds⟩ :=
      (passes_tag rules "</" (by decide) hn).close
    obtain ⟨b, d⟩ := opensBalanced.append balanced
    obtain ⟨b', d'⟩ := b.append balanced'
    obtain ⟨b'', d''⟩ := b'.append endsBalanced
    have text : Markup.text (.element name attributes (child :: rest)) =
        "<" ++ name ++ attributesText attributes ++ ">" ++ child.text ++ forestText rest ++
          ("</" ++ name ++ ">") := by
      rw [Markup.text]
      simp only [String.append_assoc]
    have defined : treeIds (.element name attributes (child :: rest)) =
        idsOf attributes ++ (treeIds child ++ forestIds rest) := by
      rw [treeIds, forestIds]
    rw [text, defined]
    refine ⟨((opens.append sane).append sane').append ends, b'', ?_⟩
    rw [d'', d', d, opensIds, defines, defines', endsIds, List.append_nil, List.append_assoc]

theorem AllSound.text : ∀ {ms : List Markup}, AllSound rules ms →
    Sane rules (forestText ms) ∧ Balanced (forestText ms) ∧ definitions (forestText ms) = forestIds ms
  | [], _ => by
    unfold forestText forestIds
    exact ⟨sane_empty, balanced_empty, rfl⟩
  | node :: rest, h => by
    unfold AllSound at h
    obtain ⟨sane, balanced, defines⟩ := Sound.text h.1
    obtain ⟨sane', balanced', defines'⟩ := AllSound.text h.2
    obtain ⟨both, ids⟩ := balanced.append balanced'
    unfold forestText forestIds
    exact ⟨sane.append sane', both, by rw [ids, defines, defines']⟩

end

end VectorGraph.Markup
