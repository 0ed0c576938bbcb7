import VectorGraph.Markup.Template

/-!
Replacing the paint attributes in serialized markup.

`stripAttribute` replaces every `name="…"` after a blank, blank included, by one space.
`insertAttributes` puts attributes right behind the name of every drawable element; the name has to
be followed by a blank, a slash or a closing angle bracket. `insertDescribed?` reads the attributes as
a template first.
-/
namespace VectorGraph.Paint

/-- What follows `name="…"` when that stands at the front. -/
def afterAttribute? (name cs : List Char) : Option (List Char) :=
  let lead := name ++ ['=', '"']
  if lead.isPrefixOf cs then
    match (cs.drop lead.length).dropWhile (· != '"') with
    | _ :: rest => some rest
    | [] => none
  else none

theorem length_afterAttribute? {name cs rest : List Char} (h : afterAttribute? name cs = some rest) :
    rest.length < cs.length := by
  simp only [afterAttribute?] at h
  split at h
  · split at h
    · next eq =>
      obtain rfl := Option.some.inj h
      have short := (List.dropWhile_sublist (l := cs.drop (name ++ ['=', '"']).length)
        (· != '"')).length_le
      rw [eq] at short
      simp only [List.length_cons, List.length_drop] at short
      omega
    · cases h
  · cases h

/-- The markup without an attribute. -/
def stripChars (name : List Char) : List Char → List Char
  | [] => []
  | c :: cs =>
    if isBlankChar c then
      match _found : afterAttribute? name cs with
      | some rest => ' ' :: stripChars name rest
      | none => c :: stripChars name cs
    else c :: stripChars name cs
termination_by cs => cs.length
decreasing_by
  · have := length_afterAttribute? _found
    simp only [List.length_cons]
    omega
  · simp
  · simp

/-- The markup without the named attributes, which are removed one after the other. -/
def stripAttributes (markup : String) (names : List String) : String :=
  String.ofList (names.foldl (fun cs name => stripChars name.toList cs) markup.toList)

/-- The elements whose paint is replaced. -/
def drawableTags : List String := ["path", "rect", "circle", "polygon", "ellipse"]

/-- Whether a character ends the name of an element. -/
def endsName (c : Char) : Bool := isBlankChar c || c == '/' || c == '>'

/-- What follows the name `tag` when that stands at the front as a whole name: the character that ends
it, and the rest. -/
def afterTag? (tag cs : List Char) : Option (Char × List Char) :=
  if tag.isPrefixOf cs then
    match cs.drop tag.length with
    | c :: rest => if endsName c then some (c, rest) else none
    | [] => none
  else none

theorem length_afterTag? {tag cs rest : List Char} {c : Char} (h : afterTag? tag cs = some (c, rest)) :
    rest.length < cs.length := by
  simp only [afterTag?] at h
  split at h
  · split at h
    · next eq =>
      split at h
      · obtain ⟨-, rfl⟩ := Prod.mk.inj (Option.some.inj h)
        have short : (cs.drop tag.length).length ≤ cs.length := by simp
        rw [eq] at short
        simp only [List.length_cons] at short
        omega
      · cases h
    · cases h
  · cases h

/-- The markup with every element name `tag`, and the character that ends it, replaced by the name, a
space and what the template makes of them. -/
def insertChars (tag : List Char) (t : Template) : List Char → List Char
  | [] => []
  | c :: cs =>
    if c = '<' then
      match _found : afterTag? tag cs with
      | some (d, rest) =>
        '<' :: tag ++ ' ' :: t.fill ('<' :: tag ++ [d]) d ++ insertChars tag t rest
      | none => c :: insertChars tag t cs
    else c :: insertChars tag t cs
termination_by cs => cs.length
decreasing_by
  · have := length_afterTag? _found
    simp only [List.length_cons]
    omega
  · simp
  · simp

/-- The markup with a template applied to the names of all drawable elements, one kind of element
after the other. -/
def insertTemplate (markup : String) (t : Template) : String :=
  String.ofList (drawableTags.foldl (fun cs tag => insertChars tag.toList t cs) markup.toList)

/-- The markup with attributes put into every drawable element. -/
def insertAttributes (markup attributes : String) : String :=
  insertTemplate markup (Template.plain attributes.toList ++ [.delimiter])

/-- The markup with attributes put into every drawable element, where the attributes and the delimiter
behind them are read as one template; nothing if that cannot be read. -/
def insertDescribed? (markup attributes : String) : Option String :=
  (Template.read? (attributes.toList ++ ['\\', '1'])).map (insertTemplate markup)

end VectorGraph.Paint
