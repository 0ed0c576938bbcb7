import VectorGraph.Markup.Element
import VectorGraph.Proofs.Text.Reach
import VectorGraph.Text.Blank

/-!
Markup as a forest of elements.

A text without anything between its tags is the text of a forest. How a forest is written is said in two steps: tags
are spelled one after the other (`Spells`), and start tags and end tags nest (`Nests`). Blanks of any kind and number
may stand before the attributes and at the end of a start tag. Reading goes the same two steps, and it reads a forest
from a text if and only if the text is one of the ways to write the forest (`forest?_eq_some`).
-/
namespace VectorGraph.Markup

/-! ## Tags -/

/-- What names are made of. -/
def isWordChar (c : Char) : Bool := !isBlankChar c && !(['<', '>', '/', '=', '"'].contains c)

/-- A name of an element or of an attribute. -/
structure IsWord (name : String) : Prop where
  nonempty : name.toList ≠ []
  chars : ∀ c ∈ name.toList, isWordChar c = true

instance (name : String) : Decidable (IsWord name) :=
  decidable_of_iff (name.toList ≠ [] ∧ name.toList.all isWordChar = true)
    ⟨fun h => ⟨h.1, List.all_eq_true.mp h.2⟩, fun h => ⟨h.nonempty, List.all_eq_true.mpr h.chars⟩⟩

inductive Tag where
  /-- A start tag, which may close its element at once. -/
  | start (name : String) (attributes : Attributes) (closed : Bool)
  | stop (name : String)
  deriving DecidableEq, Repr

/-- The end of a start tag. -/
def tagEnd (closed : Bool) : List Char := if closed then ['/', '>'] else ['>']

/-- How attributes are spelled, with the blanks behind them. -/
inductive SpellsAttributes : Attributes → List Char → Prop
  | nil {b : List Char} (blanks : ∀ c ∈ b, isBlankChar c = true) : SpellsAttributes [] b
  | cons {b t : List Char} {name value : String} {rest : Attributes} (blanks : ∀ c ∈ b, isBlankChar c = true)
      (apart : b ≠ []) (word : IsWord name) (unquoted : '"' ∉ value.toList) (more : SpellsAttributes rest t) :
      SpellsAttributes ((name, value) :: rest) (b ++ (name.toList ++ '=' :: '"' :: (value.toList ++ '"' :: t)))

/-- How a tag is spelled. -/
inductive SpellsTag : Tag → List Char → Prop
  | start {name : String} {attributes : Attributes} {closed : Bool} {t : List Char} (word : IsWord name)
      (spelled : SpellsAttributes attributes t) :
      SpellsTag (.start name attributes closed) ('<' :: (name.toList ++ (t ++ tagEnd closed)))
  | stop {name : String} (word : IsWord name) : SpellsTag (.stop name) ('<' :: '/' :: (name.toList ++ ['>']))

/-- How tags are spelled one after the other. -/
inductive Spells : List Tag → List Char → Prop
  | nil : Spells [] []
  | cons {tag : Tag} {tags : List Tag} {t more : List Char} (first : SpellsTag tag t) (rest : Spells tags more) :
      Spells (tag :: tags) (t ++ more)

variable {cs rest t : List Char} {name value : String} {a : String × String} {attributes : Attributes}
  {closed : Bool} {tag : Tag} {tags more : List Tag}

theorem isWordChar_eq_false {c : Char} :
    isWordChar c = false ↔ isBlankChar c = true ∨ c ∈ ['<', '>', '/', '=', '"'] := by
  rw [isWordChar, Bool.and_eq_false_iff, Bool.not_eq_false', Bool.not_eq_false', List.contains_iff_mem]

theorem isBlankChar_of_isWordChar {c : Char} (h : isWordChar c = true) : isBlankChar c = false := by
  rw [isWordChar, Bool.and_eq_true, Bool.not_eq_true'] at h
  exact h.1

/-- A name begins with a character that is not blank. -/
theorem IsWord.ends (word : IsWord name) (rest : List Char) : Ends isBlankChar (name.toList ++ rest) := by
  obtain ⟨c, cs, text⟩ := List.exists_cons_of_ne_nil word.nonempty
  rw [text]
  exact ends_cons (isBlankChar_of_isWordChar (word.chars c (text ▸ List.mem_cons_self))) _

theorem isWord_ofList {cs : List Char} (nonempty : cs ≠ []) (chars : ∀ c ∈ cs, isWordChar c = true) :
    IsWord (String.ofList cs) := by
  constructor <;> rwa [String.toList_ofList]

theorem isWord_takeWhile (named : ¬ (cs.takeWhile isWordChar).isEmpty = true) :
    IsWord (String.ofList (cs.takeWhile isWordChar)) :=
  isWord_ofList (fun empty => named (List.isEmpty_iff.mpr empty)) fun _ => List.mem_takeWhile_imp

/-- The end of a start tag begins with what is neither blank nor part of a name. -/
theorem exists_tagEnd (closed : Bool) (rest : List Char) : ∃ c more, tagEnd closed ++ rest = c :: more ∧
    isBlankChar c = false ∧ isWordChar c = false := by
  cases closed with
  | true => exact ⟨'/', '>' :: rest, rfl, by decide, by decide⟩
  | false => exact ⟨'>', rest, rfl, by decide, by decide⟩

/-! ## Reading tags -/

/-- The attribute at the front, and what follows it. -/
def attribute? (cs : List Char) : Option ((String × String) × List Char) :=
  let inner := cs.dropWhile isBlankChar
  let name := inner.takeWhile isWordChar
  if (cs.takeWhile isBlankChar).isEmpty || name.isEmpty then none
  else
    match inner.dropWhile isWordChar with
    | '=' :: '"' :: body =>
      match body.dropWhile (· != '"') with
      | _ :: rest => some ((String.ofList name, String.ofList (body.takeWhile (· != '"'))), rest)
      | [] => none
    | _ => none

/-- An attribute that is read was spelled at the front. -/
theorem exists_of_attribute? (found : attribute? cs = some (a, rest)) :
    ∃ b, b ≠ [] ∧ (∀ c ∈ b, isBlankChar c = true) ∧ IsWord a.1 ∧ '"' ∉ a.2.toList ∧
      cs = b ++ (a.1.toList ++ '=' :: '"' :: (a.2.toList ++ '"' :: rest)) := by
  simp only [attribute?] at found
  split at found
  · cases found
  · next apart =>
    rw [Bool.or_eq_true, List.isEmpty_iff, List.isEmpty_iff, not_or] at apart
    split at found
    · next body inner =>
      split at found
      · next quote rest' value =>
        obtain ⟨rfl, rfl⟩ := Prod.mk.inj (Option.some.inj found)
        have closes : quote = '"' := by
          have head := List.head_dropWhile_not (· != '"') (by rw [value]; exact List.cons_ne_nil _ _)
          simpa [value] using head
        have front := List.takeWhile_append_dropWhile (p := isBlankChar) (l := cs)
        have middle := List.takeWhile_append_dropWhile (p := isWordChar) (l := cs.dropWhile isBlankChar)
        have back := List.takeWhile_append_dropWhile (p := (· != '"')) (l := body)
        refine ⟨cs.takeWhile isBlankChar, apart.1, fun c => List.mem_takeWhile_imp,
          isWord_ofList apart.2 fun c => List.mem_takeWhile_imp, fun mem => ?_, ?_⟩
        · rw [String.toList_ofList] at mem
          simpa using List.mem_takeWhile_imp mem
        · rw [value, closes] at back
          rw [String.toList_ofList, String.toList_ofList, back, ← inner, middle, front]
      · cases found
    · cases found

/-- An attribute that is spelled at the front is read. -/
theorem attribute?_append {b : List Char} (apart : b ≠ []) (blanks : ∀ c ∈ b, isBlankChar c = true)
    (word : IsWord name) (unquoted : '"' ∉ value.toList) (rest : List Char) :
    attribute? (b ++ (name.toList ++ '=' :: '"' :: (value.toList ++ '"' :: rest))) = some ((name, value), rest) := by
  obtain ⟨front, inner⟩ := cut_append blanks (word.ends ('=' :: '"' :: (value.toList ++ '"' :: rest)))
  obtain ⟨middle, body⟩ := cut_append word.chars
    (ends_cons (by decide : isWordChar '=' = false) ('"' :: (value.toList ++ '"' :: rest)))
  have plain : ∀ c ∈ value.toList, (c != '"') = true := fun c mem => bne_iff_ne.mpr fun same => unquoted (same ▸ mem)
  have ends : Ends (fun c => c != '"') ('"' :: rest) := ends_cons (by decide) rest
  obtain ⟨inside, back⟩ := cut_append plain ends
  have some_ : (b.isEmpty || name.toList.isEmpty) = false := by simp [apart, word.nonempty]
  simp only [attribute?, front, inner, middle, body, inside, back, some_, Bool.false_eq_true, if_false,
    String.ofList_toList]

theorem length_attribute? (h : attribute? cs = some (a, rest)) : rest.length < cs.length := by
  obtain ⟨b, -, -, -, -, rfl⟩ := exists_of_attribute? h
  simp only [List.length_append, List.length_cons]
  omega

/-- All attributes at the front, and what follows them and the blanks behind them. -/
def readAttributes (cs : List Char) : Attributes × List Char :=
  match _found : attribute? cs with
  | some (a, rest) =>
    let (attributes, rest) := readAttributes rest
    (a :: attributes, rest)
  | none => ([], cs.dropWhile isBlankChar)
termination_by cs.length
decreasing_by exact length_attribute? _found

theorem spellsAttributes_readAttributes (cs : List Char) :
    ∃ t, SpellsAttributes (readAttributes cs).1 t ∧ cs = t ++ (readAttributes cs).2 := by
  fun_induction readAttributes cs with
  | case1 cs a rest found attributes rest' read ih =>
    obtain ⟨t, spelled, whole⟩ := ih
    obtain ⟨b, apart, blanks, word, unquoted, rfl⟩ := exists_of_attribute? found
    rw [read] at spelled whole
    exact ⟨_, .cons blanks apart word unquoted spelled, by simp [whole]⟩
  | case2 cs =>
    exact ⟨cs.takeWhile isBlankChar, .nil fun c => List.mem_takeWhile_imp, List.takeWhile_append_dropWhile.symm⟩

theorem readAttributes_append (h : SpellsAttributes attributes t) (blank : Ends isBlankChar rest)
    (word : Ends isWordChar rest) : readAttributes (t ++ rest) = (attributes, rest) := by
  induction h with
  | @nil b blanks =>
    have none_ : attribute? (b ++ rest) = none := by
      rw [Option.eq_none_iff_forall_ne_some]
      rintro ⟨a, rest'⟩ found
      obtain ⟨b', -, blanks', named, -, whole⟩ := exists_of_attribute? found
      -- both texts begin with as many blanks as they can, so the name would have to begin what follows them
      obtain ⟨-, rfl⟩ := append_inj_of_ends blanks blanks' blank (named.ends _) whole
      obtain ⟨c, cs, text⟩ := List.exists_cons_of_ne_nil named.nonempty
      have off := word c (by rw [text]; rfl)
      rw [named.chars c (text ▸ List.mem_cons_self)] at off
      cases off
    rw [readAttributes]
    split
    · next found => exact nomatch none_.symm.trans found
    · rw [(cut_append blanks blank).2]
  | @cons b t name value attributes blanks apart named unquoted more ih =>
    have first : attribute? (b ++ (name.toList ++ '=' :: '"' :: (value.toList ++ '"' :: t)) ++ rest) =
        some ((name, value), t ++ rest) := by
      rw [← attribute?_append apart blanks named unquoted (t ++ rest)]
      simp
    rw [readAttributes]
    split
    · next a rest' found =>
      obtain ⟨rfl, rfl⟩ := Prod.mk.inj (Option.some.inj (first.symm.trans found))
      rw [ih]
    · next found => exact nomatch first.symm.trans found

/-- The tag at the front, and what follows it. -/
def tag? : List Char → Option (Tag × List Char)
  | '<' :: '/' :: cs =>
    let name := cs.takeWhile isWordChar
    if name.isEmpty then none
    else
      match cs.dropWhile isWordChar with
      | '>' :: rest => some (.stop (String.ofList name), rest)
      | _ => none
  | '<' :: cs =>
    let name := cs.takeWhile isWordChar
    if name.isEmpty then none
    else
      match readAttributes (cs.dropWhile isWordChar) with
      | (attributes, '/' :: '>' :: rest) => some (.start (String.ofList name) attributes true, rest)
      | (attributes, '>' :: rest) => some (.start (String.ofList name) attributes false, rest)
      | _ => none
  | _ => none

/-- Behind blanks no name begins. -/
theorem ends_blanks {b : List Char} (blanks : ∀ c ∈ b, isBlankChar c = true) (ends : Ends isWordChar rest) :
    Ends isWordChar (b ++ rest) := by
  cases b with
  | nil => exact ends
  | cons c b => exact ends_cons (isWordChar_eq_false.mpr (.inl (blanks c List.mem_cons_self))) _

theorem SpellsAttributes.ends (h : SpellsAttributes attributes t) (ends : Ends isWordChar rest) :
    Ends isWordChar (t ++ rest) := by
  cases h with
  | nil blanks => exact ends_blanks blanks ends
  | cons blanks apart =>
    obtain ⟨c, b, rfl⟩ := List.exists_cons_of_ne_nil apart
    exact ends_cons (isWordChar_eq_false.mpr (.inl (blanks c List.mem_cons_self))) _

/-- What a name and the attributes behind it are read from, up to the end of the tag, is a start tag. -/
theorem exists_start_of_read (closed : Bool) (named : ¬ (cs.takeWhile isWordChar).isEmpty = true)
    (read : readAttributes (cs.dropWhile isWordChar) = (attributes, tagEnd closed ++ rest)) :
    ∃ t, SpellsTag (.start (String.ofList (cs.takeWhile isWordChar)) attributes closed) t ∧ '<' :: cs = t ++ rest := by
  have whole := List.takeWhile_append_dropWhile (p := isWordChar) (l := cs)
  obtain ⟨t, spelled, split⟩ := spellsAttributes_readAttributes (cs.dropWhile isWordChar)
  rw [split, read] at whole
  rw [read] at spelled
  exact ⟨_, .start (isWord_takeWhile named) spelled, by simp [whole]⟩

theorem exists_spellsTag_of_tag? (found : tag? cs = some (tag, rest)) : ∃ t, SpellsTag tag t ∧ cs = t ++ rest := by
  unfold tag? at found
  split at found
  · next cs =>
    dsimp only at found
    split at found
    · cases found
    · next named =>
      have whole := List.takeWhile_append_dropWhile (p := isWordChar) (l := cs)
      split at found
      · next rest' dropped =>
        obtain ⟨rfl, rfl⟩ := Prod.mk.inj (Option.some.inj found)
        rw [dropped] at whole
        exact ⟨_, .stop (isWord_takeWhile named), by simp [whole]⟩
      · cases found
  · next cs _ =>
    dsimp only at found
    split at found
    · cases found
    · next named =>
      split at found
      · next attributes rest' read =>
        obtain ⟨rfl, rfl⟩ := Prod.mk.inj (Option.some.inj found)
        exact exists_start_of_read true named read
      · next attributes rest' read =>
        obtain ⟨rfl, rfl⟩ := Prod.mk.inj (Option.some.inj found)
        exact exists_start_of_read false named read
      · cases found
  · cases found

theorem SpellsTag.tag?_append (h : SpellsTag tag t) (rest : List Char) : tag? (t ++ rest) = some (tag, rest) := by
  cases h with
  | @stop name word =>
    obtain ⟨taken, dropped⟩ := cut_append word.chars (ends_cons (by decide : isWordChar '>' = false) rest)
    simp [tag?, taken, dropped, word.nonempty]
  | @start name attributes closed t word spelled =>
    obtain ⟨d, more, tail, unblank, unworded⟩ := exists_tagEnd closed rest
    have ends : Ends isWordChar (tagEnd closed ++ rest) := tail ▸ ends_cons unworded more
    obtain ⟨taken, dropped⟩ := cut_append word.chars (spelled.ends ends)
    have read := readAttributes_append spelled (tail ▸ ends_cons unblank more) ends
    -- a start tag is not taken for an end tag
    have slash : ∀ cs, name.toList ++ (t ++ (tagEnd closed ++ rest)) ≠ '/' :: cs := by
      obtain ⟨c, more, text⟩ := List.exists_cons_of_ne_nil word.nonempty
      intro cs same
      rw [text] at same
      have first := word.chars c (text ▸ List.mem_cons_self)
      rw [(List.cons.inj same).1] at first
      cases first
    simp only [List.cons_append, List.append_assoc]
    rw [tag?]
    · simp only [taken, dropped, read]
      cases closed <;> simp [tagEnd, word.nonempty]
    · exact slash

/-- A tag stands at the front if a way to spell it does. -/
theorem tag?_eq_some : tag? cs = some (tag, rest) ↔ ∃ t, SpellsTag tag t ∧ cs = t ++ rest := by
  constructor
  · exact exists_spellsTag_of_tag?
  · rintro ⟨t, spelled, rfl⟩
    exact spelled.tag?_append rest

theorem SpellsTag.exists_cons (h : SpellsTag tag t) : ∃ more, t = '<' :: more := by
  cases h <;> exact ⟨_, rfl⟩

theorem length_tag? (h : tag? cs = some (tag, rest)) : rest.length < cs.length := by
  obtain ⟨t, spelled, rfl⟩ := tag?_eq_some.mp h
  obtain ⟨more, rfl⟩ := spelled.exists_cons
  simp only [List.length_append, List.length_cons]
  omega

/-- The tags of a text; nothing if there is anything else in it. -/
def tags? : List Char → Option (List Tag)
  | [] => some []
  | c :: cs =>
    match _found : tag? (c :: cs) with
    | some (tag, rest) => (tags? rest).map (tag :: ·)
    | none => none
termination_by cs => cs.length
decreasing_by exact length_tag? _found

theorem tags?_eq_some : tags? cs = some tags ↔ Spells tags cs := by
  constructor
  · fun_induction tags? cs generalizing tags with
    | case1 =>
      rintro ⟨⟩
      exact .nil
    | case2 c cs tag rest found ih =>
      intro read
      obtain ⟨later, same, rfl⟩ := Option.map_eq_some_iff.mp read
      obtain ⟨t, spelled, whole⟩ := tag?_eq_some.mp found
      rw [whole]
      exact .cons spelled (ih same)
    | case3 => exact nofun
  · intro spelled
    induction spelled with
    | nil => rw [tags?]
    | @cons tag tags t rest first _ ih =>
      have found : tag? (t ++ rest) = some (tag, rest) := tag?_eq_some.mpr ⟨t, first, rfl⟩
      obtain ⟨more, rfl⟩ := first.exists_cons
      rw [List.cons_append, tags?]
      split
      · next tag' rest' found' =>
        obtain ⟨rfl, rfl⟩ := Prod.mk.inj (Option.some.inj (found.symm.trans found'))
        rw [ih, Option.map_some]
      · next none_ => exact nomatch found.symm.trans none_

theorem Spells.append (h : Spells tags cs) (h' : Spells more t) : Spells (tags ++ more) (cs ++ t) := by
  induction h with
  | nil => exact h'
  | cons first _ ih =>
    rw [List.append_assoc]
    exact .cons first ih

theorem spells_singleton : Spells [tag] t ↔ SpellsTag tag t := by
  constructor
  · rintro (_ | ⟨first, _ | _⟩)
    rwa [List.append_nil]
  · intro first
    have spelled := Spells.cons first .nil
    rwa [List.append_nil] at spelled

theorem SpellsAttributes.unquoted (h : SpellsAttributes attributes t) : ∀ a ∈ attributes, '"' ∉ a.2.toList := by
  induction h with
  | nil => exact nofun
  | cons _ _ _ unquoted _ ih => exact List.forall_mem_cons.mpr ⟨unquoted, ih⟩

/-- No value that is read holds a quote. -/
theorem SpellsTag.unquoted (h : SpellsTag (.start name attributes closed) t) :
    ∀ a ∈ attributes, '"' ∉ a.2.toList := by
  cases h with
  | start _ spelled => exact spelled.unquoted

/-! ## Forests -/

/-- Elements in a row: the first one with its attributes and children, and the elements behind it. -/
inductive Forest where
  | nil
  | element (name : String) (attributes : Attributes) (children rest : Forest)
  deriving DecidableEq, Repr

/-- How tags make a forest. -/
inductive Nests : Forest → List Tag → Prop
  | nil : Nests .nil []
  | closed {name : String} {attributes : Attributes} {rest : Forest} {tags : List Tag} (later : Nests rest tags) :
      Nests (.element name attributes .nil rest) (.start name attributes true :: tags)
  | around {name : String} {attributes : Attributes} {children rest : Forest} {inner tags : List Tag}
      (inside : Nests children inner) (later : Nests rest tags) :
      Nests (.element name attributes children rest)
        (.start name attributes false :: (inner ++ .stop name :: tags))

/-- How a forest is written. -/
def Writes (forest : Forest) (text : String) : Prop := ∃ tags, Nests forest tags ∧ Spells tags text.toList

namespace Forest

def append : Forest → Forest → Forest
  | nil, more => more
  | element name attributes children rest, more => element name attributes children (rest.append more)

theorem append_nil (f : Forest) : f.append nil = f := by
  induction f with
  | nil => rfl
  | element name attributes children rest _ ih => rw [append, ih]

end Forest

/-- Elements that are complete, and for every end tag before them that has no start tag yet its name and the
elements behind it. -/
abbrev Gathered := Forest × List (String × Forest)

/-- What a tag makes of all that follows it. -/
def Tag.gather : Tag → Gathered → Option Gathered
  | .start name attributes true, (done, waiting) => some (.element name attributes .nil done, waiting)
  | .start name attributes false, (done, (awaited, rest) :: waiting) =>
    if name = awaited then some (.element name attributes done rest, waiting) else none
  | .start _ _ false, (_, []) => none
  | .stop name, (done, waiting) => some (.nil, (name, done) :: waiting)

/-- Tags are gathered from the last to the first. -/
def gather (tags : List Tag) (g : Gathered) : Option Gathered := tags.foldrM Tag.gather g

/-- The forest that a text is read as; nothing if it is not the text of a forest. -/
def forest? (text : String) : Option Forest :=
  match (tags? text.toList).bind (gather · (.nil, [])) with
  | some (forest, []) => some forest
  | _ => none

theorem gather_append (tags more : List Tag) (g : Gathered) :
    gather (tags ++ more) g = (gather more g).bind (gather tags) := List.foldrM_append

theorem gather_cons (tag : Tag) (tags : List Tag) (g : Gathered) :
    gather (tag :: tags) g = (gather tags g).bind tag.gather := List.foldrM_cons

/-- Tags that nest are put before what is gathered already. -/
theorem Nests.gather {forest : Forest} (h : Nests forest tags) : ∀ done waiting,
    Markup.gather tags (done, waiting) = some (forest.append done, waiting) := by
  induction h with
  | nil => exact fun _ _ => rfl
  | closed _ ih =>
    intro done waiting
    rw [gather_cons, ih, Option.bind_some, Tag.gather, Forest.append]
  | around _ _ inside later =>
    intro done waiting
    rw [gather_cons, gather_append, gather_cons, later, Option.bind_some, Tag.gather, Option.bind_some, inside,
      Option.bind_some, Tag.gather, if_pos rfl, Forest.append_nil, Forest.append]

/-- Tags that nest up to end tags without a start. -/
inductive Hangs : List Tag → Gathered → Prop
  | whole {forest : Forest} {tags : List Tag} (nests : Nests forest tags) : Hangs tags (forest, [])
  | stop {name : String} {forest done : Forest} {waiting : List (String × Forest)} {tags more : List Tag}
      (nests : Nests forest tags) (later : Hangs more (done, waiting)) :
      Hangs (tags ++ .stop name :: more) (forest, (name, done) :: waiting)

/-- What is put before the elements that are complete is put before all that hangs. -/
theorem Hangs.grow {done forest : Forest} {waiting : List (String × Forest)} (h : Hangs more (done, waiting))
    (before : List Tag) (next : ∀ {tags}, Nests done tags → Nests forest (before ++ tags)) :
    Hangs (before ++ more) (forest, waiting) := by
  cases h with
  | whole nests => exact .whole (next nests)
  | stop nests later =>
    rw [← List.append_assoc]
    exact .stop (next nests) later

/-- A start tag takes the elements up to the first end tag that waits for one. -/
theorem Hangs.close {done rest : Forest} {waiting : List (String × Forest)}
    (h : Hangs tags (done, (name, rest) :: waiting)) (attributes : Attributes) :
    Hangs (.start name attributes false :: tags) (.element name attributes done rest, waiting) := by
  cases h with
  | @stop _ _ _ _ inner more inside outside =>
    have around : ∀ {tags}, Nests rest tags → Nests (.element name attributes done rest)
        (.start name attributes false :: (inner ++ [.stop name]) ++ tags) := by
      intro tags later
      rw [List.cons_append, List.append_assoc]
      exact .around inside later
    have whole := outside.grow _ around
    rwa [List.cons_append, List.append_assoc] at whole

/-- What is gathered hangs together, tag by tag from the last one. -/
theorem hangs_gather {g : Gathered} (h : gather tags (.nil, []) = some g) : Hangs tags g := by
  induction tags generalizing g with
  | nil =>
    obtain rfl := Option.some.inj h
    exact .whole .nil
  | cons tag tags ih =>
    rw [gather_cons] at h
    obtain ⟨⟨done, waiting⟩, later, first⟩ := Option.bind_eq_some_iff.mp h
    have hangs := ih later
    cases tag with
    | stop name =>
      obtain rfl := Option.some.inj first
      exact (Hangs.stop .nil hangs : Hangs ([] ++ .stop name :: tags) _)
    | start name attributes closed =>
      cases closed with
      | true =>
        obtain rfl := Option.some.inj first
        exact hangs.grow [_] .closed
      | false =>
        cases waiting with
        | nil => cases first
        | cons awaited waiting =>
          obtain ⟨name', rest⟩ := awaited
          rw [Tag.gather] at first
          split at first
          · next same =>
            obtain rfl := Option.some.inj first
            exact (same ▸ hangs).close attributes
          · cases first

/-- A forest is read from a text if the text is a way to write it. -/
theorem forest?_eq_some {text : String} {forest : Forest} : forest? text = some forest ↔ Writes forest text := by
  constructor
  · intro read
    unfold forest? at read
    split at read
    · next found =>
      obtain rfl := Option.some.inj read
      obtain ⟨tags, spelled, gathered⟩ := Option.bind_eq_some_iff.mp found
      cases hangs_gather gathered with
      | whole nests => exact ⟨tags, nests, tags?_eq_some.mp spelled⟩
    · cases read
  · rintro ⟨tags, nests, spelled⟩
    rw [forest?, tags?_eq_some.mpr spelled, Option.bind_some, nests.gather, Forest.append_nil]

end VectorGraph.Markup
