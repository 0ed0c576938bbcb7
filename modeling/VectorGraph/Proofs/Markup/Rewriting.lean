import VectorGraph.Proofs.Markup.Forest
import VectorGraph.Proofs.Markup.Repaint

/-!
Replacing paint attributes changes the forest and nothing else.

Attributes are taken out of a text and put into it without regard for tags. But where no value holds a `<`, or a blank
with the name of the attribute and an equals sign behind it, this comes to the same as taking the attribute out of
every tag (`SpellsTag.strip`) and putting attributes first into every start tag of a name (`SpellsTag.insert`). What
is left are blanks, which any tag may have. So the new text is a way to write the forest with its attributes changed
(`Writes.repaint`).
-/
namespace VectorGraph.Markup

variable {cs rest t text : List Char} {name tagName : String} {attributes paint : Attributes} {tag : Tag}
  {tags : List Tag} {forest : Forest} {f g : String → Attributes → Attributes} {p q : String → Prop}

/-! ## Changing the attributes of elements -/

/-- A tag with other attributes, which may depend on the name of the element. -/
def Tag.recast (f : String → Attributes → Attributes) : Tag → Tag
  | .start name attributes closed => .start name (f name attributes) closed
  | .stop name => .stop name

/-- A forest whose elements have other attributes. -/
def Forest.recast (f : String → Attributes → Attributes) : Forest → Forest
  | .nil => .nil
  | .element name attributes children rest =>
    .element name (f name attributes) (children.recast f) (rest.recast f)

/-- Whether all values of a tag are such. -/
def Tag.Each (p : String → Prop) : Tag → Prop
  | .start _ attributes _ => ∀ a ∈ attributes, p a.2
  | .stop _ => True

/-- Whether all values of a forest are such. -/
def Forest.Each (p : String → Prop) : Forest → Prop
  | .nil => True
  | .element _ attributes children rest => (∀ a ∈ attributes, p a.2) ∧ children.Each p ∧ rest.Each p

theorem Nests.recast (h : Nests forest tags) (f : String → Attributes → Attributes) :
    Nests (forest.recast f) (tags.map (Tag.recast f)) := by
  induction h with
  | nil => exact .nil
  | closed _ ih => exact .closed ih
  | around _ _ inside later =>
    rw [List.map_cons, List.map_append]
    exact .around inside later

theorem Nests.each (h : Nests forest tags) (each : forest.Each p) : ∀ tag ∈ tags, tag.Each p := by
  induction h with
  | nil => exact fun _ mem => nomatch mem
  | closed _ ih => exact List.forall_mem_cons.mpr ⟨each.1, ih each.2.2⟩
  | around _ _ inside later =>
    refine List.forall_mem_cons.mpr ⟨each.1, fun tag mem => ?_⟩
    rcases List.mem_append.mp mem with mem | mem
    · exact inside each.2.1 tag mem
    · exact List.forall_mem_cons.mpr ⟨trivial, later each.2.2⟩ tag mem

theorem Forest.recast_recast (forest : Forest) :
    (forest.recast f).recast g = forest.recast fun name attributes => g name (f name attributes) := by
  induction forest with
  | nil => rfl
  | element name attributes children rest inside later => rw [recast, recast, inside, later, recast]

theorem Forest.recast_of_same (same : ∀ name attributes, f name attributes = attributes) :
    forest.recast f = forest := by
  induction forest with
  | nil => rfl
  | element name attributes children rest inside later => rw [recast, same, inside, later]

theorem Forest.Each.recast (step : ∀ name attributes, (∀ a ∈ attributes, p a.2) → ∀ a ∈ f name attributes, q a.2)
    (h : forest.Each p) : (forest.recast f).Each q := by
  induction forest with
  | nil => trivial
  | element name attributes children rest inside later => exact ⟨step name attributes h.1, inside h.2.1, later h.2.2⟩

/-! ## Blanks between attributes -/

theorem SpellsAttributes.blanks_append {b : List Char} (blanks : ∀ c ∈ b, isBlankChar c = true)
    (h : SpellsAttributes attributes t) : SpellsAttributes attributes (b ++ t) := by
  cases h with
  | nil more => exact .nil fun c mem => (List.mem_append.mp mem).elim (blanks c) (more c)
  | cons more apart word unquoted later =>
    rw [← List.append_assoc]
    exact .cons (fun c mem => (List.mem_append.mp mem).elim (blanks c) (more c)) (by simp [apart]) word unquoted later

theorem SpellsAttributes.append (h : SpellsAttributes paint text) (h' : SpellsAttributes attributes t) :
    SpellsAttributes (paint ++ attributes) (text ++ t) := by
  induction h with
  | nil blanks => exact h'.blanks_append blanks
  | @cons b t' name value rest blanks apart word unquoted _ ih =>
    have whole : b ++ (name.toList ++ '=' :: '"' :: (value.toList ++ '"' :: t')) ++ t =
        b ++ (name.toList ++ '=' :: '"' :: (value.toList ++ '"' :: (t' ++ t))) := by simp
    rw [whole]
    exact .cons blanks apart word unquoted ih

/-- A sign that no name and no value holds does not stand among attributes. -/
theorem SpellsAttributes.not_mem {c : Char} (h : SpellsAttributes attributes t) (unblank : isBlankChar c = false)
    (unworded : isWordChar c = false) (other : c ≠ '=' ∧ c ≠ '"') (values : ∀ a ∈ attributes, c ∉ a.2.toList) :
    c ∉ t := by
  induction h with
  | nil blanks =>
    intro mem
    rw [blanks c mem] at unblank
    cases unblank
  | cons blanks apart word unquoted more ih =>
    obtain ⟨here, later⟩ := List.forall_mem_cons.mp values
    have outside : ∀ {l : List Char} {p : Char → Bool}, (∀ c ∈ l, p c = true) → p c = false → c ∉ l := by
      intro l p all off mem
      rw [all c mem] at off
      cases off
    simp only [List.mem_append, List.mem_cons, not_or]
    exact ⟨outside blanks unblank, outside word.chars unworded, other.1, other.2, here, other.2, ih later⟩

/-- Attributes as they are serialized are spelled right. -/
theorem spellsAttributes_attributesText (words : ∀ a ∈ attributes, IsWord a.1 ∧ '"' ∉ a.2.toList) :
    SpellsAttributes attributes (attributesText attributes).toList := by
  induction attributes with
  | nil => exact .nil nofun
  | cons a rest ih =>
    obtain ⟨⟨word, unquoted⟩, later⟩ := List.forall_mem_cons.mp words
    have blank : ∀ c ∈ [' '], isBlankChar c = true := List.forall_mem_singleton.mpr (by decide)
    have spelled := SpellsAttributes.cons blank (List.cons_ne_nil _ _) word unquoted (ih later)
    have whole : (attributesText (a :: rest)).toList =
        [' '] ++ (a.1.toList ++ '=' :: '"' :: (a.2.toList ++ '"' :: (attributesText rest).toList)) := by
      simp [attributesText, String.join_cons, toList_attributeText]
    rw [whole]
    exact spelled

/-- An element without children is one tag. -/
theorem spells_leaf (word : IsWord name) (words : ∀ a ∈ attributes, IsWord a.1 ∧ '"' ∉ a.2.toList) :
    Spells [.start name attributes true] (leaf name attributes).text.toList := by
  have whole : (leaf name attributes).text.toList =
      '<' :: (name.toList ++ ((attributesText attributes).toList ++ tagEnd true)) := by
    simp [leaf, text, tagEnd]
  rw [whole, spells_singleton]
  exact .start word (spellsAttributes_attributesText words)

/-! ## Taking an attribute out -/

/-- Whether a value holds what looks like the beginning of an attribute. -/
def Mimics (name value : String) : Prop :=
  ∃ c, isBlankChar c = true ∧ c :: (name.toList ++ ['=']) <:+: value.toList

theorem afterAttribute?_eq_some {name cs rest : List Char} : Paint.afterAttribute? name cs = some rest ↔
    ∃ value, '"' ∉ value ∧ cs = name ++ '=' :: '"' :: (value ++ '"' :: rest) := by
  refine ⟨eq_of_afterAttribute?, ?_⟩
  rintro ⟨value, unquoted, rfl⟩
  have plain : ∀ c ∈ value, (c != '"') = true := fun c mem => bne_iff_ne.mpr fun same => unquoted (same ▸ mem)
  have ends : Ends (fun c => c != '"') ('"' :: rest) := ends_cons (by decide) rest
  have split : name ++ '=' :: '"' :: (value ++ '"' :: rest) = name ++ ['=', '"'] ++ (value ++ '"' :: rest) := by simp
  simp only [Paint.afterAttribute?]
  rw [split, if_pos (List.isPrefixOf_iff_prefix.mpr (List.prefix_append _ _)), List.drop_left,
    (cut_append plain ends).2]

/-- Where no name begins, there is no attribute. -/
theorem afterAttribute?_eq_none (word : IsWord name) (ends : Ends isWordChar cs) :
    Paint.afterAttribute? name.toList cs = none := by
  rw [Option.eq_none_iff_forall_ne_some]
  intro rest found
  obtain ⟨value, -, rfl⟩ := afterAttribute?_eq_some.mp found
  obtain ⟨c, more, text⟩ := List.exists_cons_of_ne_nil word.nonempty
  have off := ends c (by rw [text]; rfl)
  rw [word.chars c (text ▸ List.mem_cons_self)] at off
  cases off

theorem stripChars_cons_of_none {name cs : List Char} {c : Char}
    (none_ : isBlankChar c = true → Paint.afterAttribute? name cs = none) :
    Paint.stripChars name (c :: cs) = c :: Paint.stripChars name cs := by
  rw [Paint.stripChars]
  split
  · next blank =>
    split
    · next found => cases (none_ blank).symm.trans found
    · rfl
  · rfl

theorem stripChars_cons_of_some {name cs rest : List Char} {c : Char} (blank : isBlankChar c = true)
    (found : Paint.afterAttribute? name cs = some rest) :
    Paint.stripChars name (c :: cs) = ' ' :: Paint.stripChars name rest := by
  rw [Paint.stripChars, if_pos blank]
  split
  · next found' =>
    obtain rfl := Option.some.inj (found.symm.trans found')
    rfl
  · next none_ => cases found.symm.trans none_

theorem unblank_of_any (h : cs.any isBlankChar = false) : ∀ c ∈ cs, isBlankChar c = false :=
  fun c mem => Bool.eq_false_iff.mpr (List.any_eq_false.mp h c mem)

/-- A text stays if no attribute begins behind any blank in it. -/
theorem stripChars_append {name x rest : List Char}
    (quiet : ∀ y c z, x = y ++ c :: z → isBlankChar c = true → Paint.afterAttribute? name (z ++ rest) = none) :
    Paint.stripChars name (x ++ rest) = x ++ Paint.stripChars name rest := by
  induction x with
  | nil => rfl
  | cons c x ih =>
    rw [List.cons_append, stripChars_cons_of_none (quiet [] c x rfl),
      ih fun y d z split => quiet (c :: y) d z (by rw [split, List.cons_append]), List.cons_append]

theorem stripChars_unblank {name x : List Char} (unblank : ∀ c ∈ x, isBlankChar c = false) (rest : List Char) :
    Paint.stripChars name (x ++ rest) = x ++ Paint.stripChars name rest := by
  refine stripChars_append fun y c z split blank => ?_
  rw [unblank c (by rw [split]; simp)] at blank
  cases blank

/-- Blanks stay up to where a name may begin. -/
theorem stripChars_blanks {b : List Char} (word : IsWord name) (blanks : ∀ c ∈ b, isBlankChar c = true)
    (ends : Ends isWordChar rest) :
    Paint.stripChars name.toList (b ++ rest) = b ++ Paint.stripChars name.toList rest := by
  refine stripChars_append fun y c z split _ => afterAttribute?_eq_none word (ends_blanks (fun d mem => ?_) ends)
  exact blanks d (by rw [split]; simp [mem])

theorem stripChars_value {value : String} (word : IsWord name) (unquoted : '"' ∉ value.toList)
    (quiet : ¬ Mimics name value) (rest : List Char) : Paint.stripChars name.toList (value.toList ++ '"' :: rest) =
      value.toList ++ '"' :: Paint.stripChars name.toList rest := by
  rw [stripChars_append, stripChars_cons_of_none (c := '"') fun blank => absurd blank (by decide)]
  intro y c z split blank
  rw [Option.eq_none_iff_forall_ne_some]
  intro rest' found
  obtain ⟨value', -, same⟩ := afterAttribute?_eq_some.mp found
  have lead : z ++ '"' :: rest = (name.toList ++ ['=']) ++ '"' :: (value' ++ '"' :: rest') := by
    rw [same]
    simp
  have inner : ∀ c ∈ z, (c != '"') = true := fun d mem =>
    bne_iff_ne.mpr fun same => unquoted (by rw [split, ← same]; simp [mem])
  have outer : ∀ c ∈ name.toList ++ ['='], (c != '"') = true := by
    intro d mem
    rw [bne_iff_ne]
    rintro rfl
    rcases List.mem_append.mp mem with mem | mem
    · exact absurd (word.chars '"' mem) (by decide)
    · exact absurd mem (by decide)
  have ends : ∀ r, Ends (fun c => c != '"') ('"' :: r) := ends_cons (by decide)
  obtain ⟨rfl, -⟩ := append_inj_of_ends inner outer (ends _) (ends _) lead
  exact quiet ⟨c, blank, split ▸ (List.suffix_append y _).isInfix⟩

/-- An attribute of another name stays. -/
theorem stripChars_other {named value : String} {c : Char} (word : IsWord name) (word' : IsWord named)
    (other : named ≠ name) (unquoted : '"' ∉ value.toList) (quiet : ¬ Mimics name value) (rest : List Char) :
    Paint.stripChars name.toList (c :: (named.toList ++ '=' :: '"' :: (value.toList ++ '"' :: rest))) =
      c :: (named.toList ++ '=' :: '"' :: (value.toList ++ '"' :: Paint.stripChars name.toList rest)) := by
  have none_ : Paint.afterAttribute? name.toList
      (named.toList ++ '=' :: '"' :: (value.toList ++ '"' :: rest)) = none := by
    rw [Option.eq_none_iff_forall_ne_some]
    intro rest' found
    obtain ⟨value', -, same⟩ := afterAttribute?_eq_some.mp found
    have ends : ∀ r, Ends isWordChar ('=' :: r) := ends_cons (by decide)
    exact other (String.toList_inj.mp (append_inj_of_ends word'.chars word.chars (ends _) (ends _) same).1)
  have lead : named.toList ++ '=' :: '"' :: (value.toList ++ '"' :: rest) =
      (named.toList ++ ['=', '"']) ++ (value.toList ++ '"' :: rest) := by simp
  have unblank : ∀ d ∈ named.toList ++ ['=', '"'], isBlankChar d = false := by
    intro d mem
    rcases List.mem_append.mp mem with mem | mem
    · exact isBlankChar_of_isWordChar (word'.chars d mem)
    · exact unblank_of_any (by decide : ['=', '"'].any isBlankChar = false) d mem
  rw [stripChars_cons_of_none fun _ => none_, lead, stripChars_unblank unblank, stripChars_value word unquoted quiet]
  simp

/-- The attributes of the name are taken out, and what is left of them are blanks. -/
theorem SpellsAttributes.strip (word : IsWord name) (h : SpellsAttributes attributes t)
    (quiet : ∀ a ∈ attributes, ¬ Mimics name a.2) (ends : Ends isWordChar rest) :
    ∃ t', SpellsAttributes (attributes.filter (·.1 ≠ name)) t' ∧
      Paint.stripChars name.toList (t ++ rest) = t' ++ Paint.stripChars name.toList rest := by
  induction h with
  | @nil b blanks => exact ⟨b, .nil blanks, stripChars_blanks word blanks ends⟩
  | @cons b t named value more blanks apart word' unquoted _ ih =>
    obtain ⟨here, later⟩ := List.forall_mem_cons.mp quiet
    obtain ⟨t', spelled, eq⟩ := ih later
    -- only the last of the blanks stands before the attribute
    obtain ⟨b, c, rfl⟩ := (List.eq_nil_or_concat b).resolve_left apart
    have blank : isBlankChar c = true := blanks c (by simp)
    have before : ∀ d ∈ b, isBlankChar d = true := fun d mem => blanks d (by simp [mem])
    have whole : b.concat c ++ (named.toList ++ '=' :: '"' :: (value.toList ++ '"' :: t)) ++ rest =
        b ++ c :: (named.toList ++ '=' :: '"' :: (value.toList ++ '"' :: (t ++ rest))) := by simp
    rw [whole, stripChars_blanks word before (ends_cons (isWordChar_eq_false.mpr (.inl blank)) _)]
    by_cases same : named = name
    · subst same
      rw [stripChars_cons_of_some blank (afterAttribute?_eq_some.mpr ⟨_, unquoted, rfl⟩), eq,
        List.filter_cons_of_neg (by simp)]
      refine ⟨(b ++ [' ']) ++ t', spelled.blanks_append fun d mem => ?_, by simp⟩
      rcases List.mem_append.mp mem with mem | mem
      · exact before d mem
      · rw [List.mem_singleton.mp mem]
        decide
    · rw [stripChars_other word word' same unquoted here, eq, List.filter_cons_of_pos (by simpa using same)]
      exact ⟨_, .cons blanks apart word' unquoted spelled, by simp⟩

theorem SpellsTag.strip (word : IsWord name) (h : SpellsTag tag t) (quiet : tag.Each (¬ Mimics name ·))
    (rest : List Char) : ∃ t', SpellsTag (tag.recast fun _ attributes => attributes.filter (·.1 ≠ name)) t' ∧
      Paint.stripChars name.toList (t ++ rest) = t' ++ Paint.stripChars name.toList rest := by
  have lead : ∀ {named : String} {opening : List Char}, IsWord named → (∀ c ∈ opening, isBlankChar c = false) →
      ∀ c ∈ opening ++ named.toList, isBlankChar c = false := by
    intro named opening word' unblank c mem
    exact (List.mem_append.mp mem).elim (unblank c) fun mem => isBlankChar_of_isWordChar (word'.chars c mem)
  cases h with
  | @start named attributes closed t word' spelled =>
    obtain ⟨c, more, tail, -, unworded⟩ := exists_tagEnd closed rest
    have ends : Ends isWordChar (tagEnd closed ++ rest) := tail ▸ ends_cons unworded more
    obtain ⟨t', spelled', eq⟩ := spelled.strip word quiet ends
    have unblank : ∀ c ∈ tagEnd closed, isBlankChar c = false := unblank_of_any (by cases closed <;> decide)
    refine ⟨_, .start word' spelled', ?_⟩
    have whole : '<' :: (named.toList ++ (t ++ tagEnd closed)) ++ rest =
        (['<'] ++ named.toList) ++ (t ++ (tagEnd closed ++ rest)) := by simp
    rw [whole, stripChars_unblank (lead word' (unblank_of_any (by decide))), eq, stripChars_unblank unblank]
    simp
  | @stop named word' =>
    refine ⟨_, .stop word', ?_⟩
    have whole : '<' :: '/' :: (named.toList ++ ['>']) ++ rest =
        (['<', '/'] ++ named.toList) ++ (['>'] ++ rest) := by simp
    rw [whole, stripChars_unblank (lead word' (unblank_of_any (by decide))),
      stripChars_unblank (unblank_of_any (by decide))]
    simp

theorem Spells.strip (word : IsWord name) (h : Spells tags cs) (quiet : ∀ tag ∈ tags, tag.Each (¬ Mimics name ·)) :
    Spells (tags.map (Tag.recast fun _ attributes => attributes.filter (·.1 ≠ name)))
      (Paint.stripChars name.toList cs) := by
  induction h with
  | nil =>
    rw [Paint.stripChars]
    exact .nil
  | cons first _ ih =>
    obtain ⟨here, later⟩ := List.forall_mem_cons.mp quiet
    obtain ⟨t', spelled, eq⟩ := first.strip word here _
    rw [eq]
    exact .cons spelled (ih later)

/-- The attributes of several names are taken out one after the other. -/
theorem Writes.strip {names : List String} {markup : String} (words : ∀ name ∈ names, IsWord name)
    (h : Writes forest markup) (quiet : ∀ name ∈ names, forest.Each (¬ Mimics name ·)) :
    Writes (forest.recast fun _ attributes => attributes.filter (·.1 ∉ names))
      (Paint.stripAttributes markup names) := by
  induction names generalizing forest markup with
  | nil =>
    have same : Paint.stripAttributes markup [] = markup := by simp [Paint.stripAttributes]
    rw [same, Forest.recast_of_same (by simp)]
    exact h
  | cons name names ih =>
    obtain ⟨word, later⟩ := List.forall_mem_cons.mp words
    obtain ⟨here, others⟩ := List.forall_mem_cons.mp quiet
    obtain ⟨tags, nests, spelled⟩ := h
    have first : Writes (forest.recast fun _ attributes => attributes.filter (·.1 ≠ name))
        (String.ofList (Paint.stripChars name.toList markup.toList)) :=
      ⟨_, nests.recast _, by rw [String.toList_ofList]; exact spelled.strip word (nests.each here)⟩
    have rest := ih later first fun name' mem =>
      (others name' mem).recast fun _ _ each a kept => each a (List.mem_of_mem_filter kept)
    have both : Paint.stripAttributes markup (name :: names) =
        Paint.stripAttributes (String.ofList (Paint.stripChars name.toList markup.toList)) names := by
      simp [Paint.stripAttributes]
    rw [Forest.recast_recast] at rest
    rw [both]
    simpa [List.filter_filter, Bool.and_comm] using rest

/-! ## Putting attributes in -/

theorem insertChars_cons_of_none {tag : List Char} {c : Char} {template : Template}
    (none_ : c = '<' → Paint.afterTag? tag cs = none) :
    Paint.insertChars tag template (c :: cs) = c :: Paint.insertChars tag template cs := by
  rw [Paint.insertChars]
  split
  · next opens =>
    split
    · next found => cases (none_ opens).symm.trans found
    · rfl
  · rfl

theorem insertChars_cons_of_some {tag : List Char} {d : Char} {template : Template}
    (found : Paint.afterTag? tag cs = some (d, rest)) : Paint.insertChars tag template ('<' :: cs) =
      '<' :: tag ++ ' ' :: template.fill ('<' :: tag ++ [d]) d ++ Paint.insertChars tag template rest := by
  rw [Paint.insertChars, if_pos rfl]
  split
  · next found' =>
    obtain ⟨rfl, rfl⟩ := Prod.mk.inj (Option.some.inj (found.symm.trans found'))
    rfl
  · next none_ => cases found.symm.trans none_

theorem insertChars_append {tag x : List Char} {template : Template} (flat : '<' ∉ x) (rest : List Char) :
    Paint.insertChars tag template (x ++ rest) = x ++ Paint.insertChars tag template rest := by
  induction x with
  | nil => rfl
  | cons c x ih =>
    rw [List.mem_cons, not_or] at flat
    rw [List.cons_append, insertChars_cons_of_none fun same => absurd same.symm flat.1, ih flat.2, List.cons_append]

theorem afterTag?_eq_some {tag cs rest : List Char} {c : Char} :
    Paint.afterTag? tag cs = some (c, rest) ↔ cs = tag ++ c :: rest ∧ Paint.endsName c = true := by
  refine ⟨eq_of_afterTag?, ?_⟩
  rintro ⟨rfl, ends⟩
  simp [Paint.afterTag?, ends]

/-- Behind a name that ends, another one is not found. -/
theorem afterTag?_eq_none (named : List Char) (word : IsWord name) (chars : ∀ c ∈ named, isWordChar c = true)
    (ends : Ends isWordChar rest) (other : named ≠ name.toList) :
    Paint.afterTag? name.toList (named ++ rest) = none := by
  rw [Option.eq_none_iff_forall_ne_some]
  rintro ⟨c, rest'⟩ found
  obtain ⟨same, endsName⟩ := afterTag?_eq_some.mp found
  have unworded : isWordChar c = false := by
    rw [isWordChar_eq_false]
    simp only [Paint.endsName, Bool.or_eq_true, beq_iff_eq] at endsName
    rcases endsName with (blank | rfl) | rfl
    · exact .inl blank
    · exact .inr (by decide)
    · exact .inr (by decide)
  exact other (append_inj_of_ends chars word.chars ends (ends_cons unworded rest') same).1

/-- Behind the name of a start tag stands what ends a name. -/
theorem SpellsAttributes.exists_cons (h : SpellsAttributes attributes t) (closed : Bool) (rest : List Char) :
    ∃ d more, t ++ (tagEnd closed ++ rest) = d :: more ∧ Paint.endsName d = true := by
  have blank : ∀ {c : Char}, isBlankChar c = true → Paint.endsName c = true := fun h => by simp [Paint.endsName, h]
  cases h with
  | nil blanks =>
    cases t with
    | nil => cases closed <;> exact ⟨_, _, rfl, by decide⟩
    | cons c b => exact ⟨c, _, rfl, blank (blanks c List.mem_cons_self)⟩
  | cons blanks apart =>
    obtain ⟨c, b, rfl⟩ := List.exists_cons_of_ne_nil apart
    exact ⟨c, _, rfl, blank (blanks c List.mem_cons_self)⟩

/-- A text is put in behind the name. -/
theorem insertChars_found {tag : List Char} {d : Char} (endsName : Paint.endsName d = true) (rest : List Char) :
    Paint.insertChars tag (Template.plain text ++ [.delimiter]) ('<' :: (tag ++ d :: rest)) =
      '<' :: (tag ++ (' ' :: text ++ Paint.insertChars tag (Template.plain text ++ [.delimiter]) (d :: rest))) := by
  have fill : Template.fill (Template.plain text ++ [.delimiter]) ('<' :: tag ++ [d]) d = text ++ [d] := by
    simp [Template.fill, Template.plain, List.flatMap_map]
  have other : d = '<' → Paint.afterTag? tag rest = none := by
    rintro rfl
    exact absurd endsName (by decide)
  rw [insertChars_cons_of_some (afterTag?_eq_some.mpr ⟨rfl, endsName⟩), fill, insertChars_cons_of_none other]
  simp

/-- An end tag stays. -/
theorem insertChars_stop {named : String} {template : Template} (word : IsWord name) (word' : IsWord named)
    (rest : List Char) :
    Paint.insertChars name.toList template ('<' :: '/' :: (named.toList ++ ['>']) ++ rest) =
      '<' :: '/' :: (named.toList ++ ['>']) ++ Paint.insertChars name.toList template rest := by
  have slash : Ends isWordChar ('/' :: (named.toList ++ ['>']) ++ rest) := ends_cons (by decide) _
  have none_ : Paint.afterTag? name.toList ('/' :: (named.toList ++ ['>']) ++ rest) = none :=
    afterTag?_eq_none [] word (by simp) slash fun eq => word.nonempty eq.symm
  have flat : '<' ∉ '/' :: (named.toList ++ ['>']) := by
    simp only [List.mem_cons, List.mem_append, List.not_mem_nil, or_false, not_or]
    exact ⟨by decide, fun mem => absurd (word'.chars '<' mem) (by decide), by decide⟩
  rw [List.cons_append, insertChars_cons_of_none fun _ => none_, insertChars_append flat]
  rfl

theorem SpellsTag.insert (word : IsWord name) (painted : SpellsAttributes paint (' ' :: text)) (h : SpellsTag tag t)
    (flat : tag.Each ('<' ∉ ·.toList)) (rest : List Char) :
    ∃ t', SpellsTag (tag.recast fun named attributes => if named = name then paint ++ attributes else attributes) t' ∧
      Paint.insertChars name.toList (Template.plain text ++ [.delimiter]) (t ++ rest) =
        t' ++ Paint.insertChars name.toList (Template.plain text ++ [.delimiter]) rest := by
  cases h with
  | @start named attributes closed t word' spelled =>
    have flat' : '<' ∉ t := spelled.not_mem (by decide) (by decide) (by decide) flat
    have flatEnd : '<' ∉ tagEnd closed := by cases closed <;> decide
    have flatName : '<' ∉ named.toList := fun mem => absurd (word'.chars '<' mem) (by decide)
    obtain ⟨c, more, tail, -, unworded⟩ := exists_tagEnd closed rest
    have ends : Ends isWordChar (t ++ (tagEnd closed ++ rest)) := spelled.ends (tail ▸ ends_cons unworded more)
    have whole : '<' :: (named.toList ++ (t ++ tagEnd closed)) ++ rest =
        '<' :: (named.toList ++ (t ++ (tagEnd closed ++ rest))) := by simp
    rw [whole, Tag.recast]
    -- Behind the name stands the paint if it is the one; a longer name that begins alike is not taken for it.
    by_cases same : named = name
    · subst same
      obtain ⟨d, r, split, endsName⟩ := spelled.exists_cons closed rest
      refine ⟨'<' :: (named.toList ++ ((' ' :: text ++ t) ++ tagEnd closed)), .start word' ?_, ?_⟩
      · rw [if_pos rfl]
        exact painted.append spelled
      · rw [split, insertChars_found endsName, ← split, insertChars_append flat', insertChars_append flatEnd]
        simp
    · refine ⟨'<' :: (named.toList ++ (t ++ tagEnd closed)), .start word' (by rwa [if_neg same]), ?_⟩
      have none_ := afterTag?_eq_none _ word word'.chars ends fun eq => same (String.toList_inj.mp eq)
      rw [insertChars_cons_of_none fun _ => none_, insertChars_append flatName, insertChars_append flat',
        insertChars_append flatEnd]
      simp
  | stop word' => exact ⟨_, .stop word', insertChars_stop word word' rest⟩

theorem Spells.insert (word : IsWord name) (painted : SpellsAttributes paint (' ' :: text)) (h : Spells tags cs)
    (flat : ∀ tag ∈ tags, tag.Each ('<' ∉ ·.toList)) :
    Spells (tags.map (Tag.recast fun named attributes => if named = name then paint ++ attributes else attributes))
      (Paint.insertChars name.toList (Template.plain text ++ [.delimiter]) cs) := by
  induction h with
  | nil =>
    rw [Paint.insertChars]
    exact .nil
  | cons first _ ih =>
    obtain ⟨here, later⟩ := List.forall_mem_cons.mp flat
    obtain ⟨t', spelled, eq⟩ := first.insert word painted here _
    rw [eq]
    exact .cons spelled (ih later)

/-- Attributes are put into the elements of several names, one name after the other. -/
theorem Writes.insert {names : List String} {markup : String} (distinct : names.Nodup)
    (words : ∀ name ∈ names, IsWord name) (painted : SpellsAttributes paint (' ' :: text))
    (flatPaint : ∀ a ∈ paint, '<' ∉ a.2.toList) (h : Writes forest markup) (flat : forest.Each ('<' ∉ ·.toList)) :
    Writes (forest.recast fun named attributes => if named ∈ names then paint ++ attributes else attributes)
      (String.ofList (names.foldl
        (fun cs tag => Paint.insertChars tag.toList (Template.plain text ++ [.delimiter]) cs) markup.toList)) := by
  induction names generalizing forest markup with
  | nil =>
    rw [List.foldl_nil, String.ofList_toList, Forest.recast_of_same (by simp)]
    exact h
  | cons name names ih =>
    obtain ⟨new, distinct⟩ := List.nodup_cons.mp distinct
    obtain ⟨word, later⟩ := List.forall_mem_cons.mp words
    obtain ⟨tags, nests, spelled⟩ := h
    have first : Writes
        (forest.recast fun named attributes => if named = name then paint ++ attributes else attributes)
        (String.ofList (Paint.insertChars name.toList (Template.plain text ++ [.delimiter]) markup.toList)) :=
      ⟨_, nests.recast _, by rw [String.toList_ofList]; exact spelled.insert word painted (nests.each flat)⟩
    have rest := ih distinct later first (flat.recast fun named attributes each => by
      split
      · exact List.forall_mem_append.mpr ⟨flatPaint, each⟩
      · exact each)
    rw [String.toList_ofList, Forest.recast_recast] at rest
    -- The names are distinct, so no element is painted twice.
    have once : ∀ (named : String) (attributes : Attributes),
        (if named ∈ names then paint ++ (if named = name then paint ++ attributes else attributes)
          else if named = name then paint ++ attributes else attributes) =
        if named ∈ name :: names then paint ++ attributes else attributes := by
      intro named attributes
      by_cases same : named = name
      · subst same
        simp [new]
      · simp [same]
    simp only [once] at rest
    exact rest

/-! ## Replacing attributes -/

/-- What replacing paint makes of the attributes of an element. -/
def repainted (names : List String) (paint : Attributes) (named : String) (attributes : Attributes) : Attributes :=
  (if named ∈ Paint.drawableTags then paint else []) ++ attributes.filter (·.1 ∉ names)

/-- A value that is not mistaken for anything else when attributes of some names are replaced. -/
structure Bare (names : List String) (value : String) : Prop where
  flat : '<' ∉ value.toList
  quiet : ∀ name ∈ names, ¬ Mimics name value

/-- New paint replaces the attributes of the names in the forest. -/
theorem Writes.repaint {names : List String} {markup attributes : String} (words : ∀ name ∈ names, IsWord name)
    (whole : (attributesText paint).toList = ' ' :: attributes.toList)
    (painted : ∀ a ∈ paint, IsWord a.1 ∧ '"' ∉ a.2.toList ∧ '<' ∉ a.2.toList) (h : Writes forest markup)
    (bare : forest.Each (Bare names)) :
    Writes (forest.recast (repainted names paint))
      (Paint.insertAttributes (Paint.stripAttributes markup names) attributes) := by
  have same : forest.recast (fun _ attributes => attributes) = forest := Forest.recast_of_same fun _ _ => rfl
  have quiet : ∀ name ∈ names, forest.Each (¬ Mimics name ·) := fun name mem =>
    same ▸ bare.recast fun _ _ each a there => (each a there).quiet name mem
  have flat : (forest.recast fun _ attributes => attributes.filter (·.1 ∉ names)).Each ('<' ∉ ·.toList) :=
    bare.recast fun _ _ each a kept => (each a (List.mem_of_mem_filter kept)).flat
  have spelled : SpellsAttributes paint (' ' :: attributes.toList) :=
    whole ▸ spellsAttributes_attributesText fun a mem => ⟨(painted a mem).1, (painted a mem).2.1⟩
  have drawable : Paint.drawableTags.Nodup ∧ ∀ name ∈ Paint.drawableTags, IsWord name := by decide
  have inserted := (h.strip words quiet).insert drawable.1 drawable.2 spelled (fun a mem => (painted a mem).2.2) flat
  rw [Forest.recast_recast] at inserted
  have once : ∀ (named : String) (attributes : Attributes),
      (if named ∈ Paint.drawableTags then paint ++ attributes.filter (·.1 ∉ names)
        else attributes.filter (·.1 ∉ names)) = repainted names paint named attributes := by
    intro named attributes
    unfold repainted
    split <;> rfl
  simp only [once] at inserted
  exact inserted

theorem Bare.repainted {names : List String} (painted : ∀ a ∈ paint, Bare names a.2)
    (each : ∀ a ∈ attributes, Bare names a.2) (named : String) :
    ∀ a ∈ Markup.repainted names paint named attributes, Bare names a.2 := by
  refine List.forall_mem_append.mpr ⟨fun a mem => ?_, fun a mem => each a (List.mem_of_mem_filter mem)⟩
  split at mem
  · exact painted a mem
  · cases mem

/-- Paint of the same names replaces all paint before it. -/
theorem repainted_repainted {names : List String} {paint' : Attributes} (named : String)
    (known : ∀ a ∈ paint, a.1 ∈ names) :
    repainted names paint' named (repainted names paint named attributes) =
      repainted names paint' named attributes := by
  have gone : (if named ∈ Paint.drawableTags then paint else []).filter (·.1 ∉ names) = [] := by
    split
    · exact List.filter_eq_nil_iff.mpr fun a mem => by simpa using known a mem
    · rfl
  unfold repainted
  rw [List.filter_append, gone, List.nil_append, List.filter_filter]
  simp only [Bool.and_self]

end VectorGraph.Markup
