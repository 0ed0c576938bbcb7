import VectorGraph.Operator.Sources
import VectorGraph.Proofs.Markup.Rewriting
import VectorGraph.Proofs.Number.Plain
import VectorGraph.Proofs.Params.Refused
import VectorGraph.Proofs.Picture.DataUri

/-!
What the source of an image can write into the picture.

A source is accepted for the picture that it is read as, but it is written between quotes as it was given. The markup
is the image of its source if and only if there is no quote in it (`contained_iff`). Base64 passes over quotes, so
there is a source with a quote for every picture (`decode_quoted`), and a picture whose encoding ends in padding can
carry any attribute (`image_adds_attribute`) and any elements (`image_adds_elements`) into the document.
-/
namespace VectorGraph.Operator

open Markup DataUri

variable {source uri body more name value : String} {p : Picture} {c : Context} {params : Fields} {inputs : Inputs}
  {given : Attributes}

/-! ## The markup of an image -/

/-- The attributes of an image behind its source. -/
def placement (resolution : Extent) : Attributes :=
  [("x", "0"), ("y", "0"), ("width", resolution.attributeText), ("height", resolution.attributeText),
    ("preserveAspectRatio", "none")]

theorem image_eq_leaf (source : String) (resolution : Extent) :
    Markup.image source resolution false = leaf "image" (("href", source) :: placement resolution) := rfl

theorem placement_words (resolution : Extent) : ∀ a ∈ placement resolution, IsWord a.1 ∧ '"' ∉ a.2.toList := by
  have unquoted : '"' ∉ resolution.attributeText.toList := fun mem =>
    absurd (plain_attributeText resolution _ mem) (by decide)
  simp only [placement, List.forall_mem_cons]
  exact ⟨by decide, by decide, ⟨by decide, unquoted⟩, ⟨by decide, unquoted⟩, by decide, nofun⟩

/-- An image with attributes behind its source is read as such. -/
theorem spells_image (unquoted : '"' ∉ source.toList) (words : ∀ a ∈ given, IsWord a.1 ∧ '"' ∉ a.2.toList) :
    Spells [.start "image" (("href", source) :: given) true]
      (leaf "image" (("href", source) :: given)).text.toList :=
  spells_leaf (by decide) (List.forall_mem_cons.mpr ⟨⟨show IsWord "href" by decide, unquoted⟩, words⟩)

/-- The markup is one image that closes itself. Its source, read up to the next quote, is the one that was given, and
it has no attributes but those of its place. -/
def Shows (source markup : String) : Prop :=
  ∃ given, tags? markup.toList = some [.start "image" (("href", source) :: given) true] ∧
    given.map Prod.fst = ["x", "y", "width", "height", "preserveAspectRatio"]

theorem shows_image_iff (source : String) (resolution : Extent) :
    Shows source (Markup.image source resolution false).text ↔ '"' ∉ source.toList := by
  constructor
  · rintro ⟨given, read, -⟩
    exact (spells_singleton.mp (tags?_eq_some.mp read)).unquoted _ List.mem_cons_self
  · intro unquoted
    exact ⟨placement resolution, tags?_eq_some.mpr (spells_image unquoted (placement_words resolution)), rfl⟩

/-! ## Runs -/

/-- Reading a source never fails. -/
theorem exists_source (params : Fields) : ∃ source, Params.Image.imageSrc.read params = .ok source :=
  (Params.Image.imageSrc.read_refuses params).sure nofun

theorem ne_empty_of_decode (accepted : decode source = .ok p) : source ≠ "" := by
  rintro rfl
  cases accepted

theorem image_accepted (read : Params.Image.imageSrc.read params = .ok source)
    (accepted : decode source = .ok p) (c : Context) (inputs : Inputs) :
    image c params inputs = Drawing.answer ⟨(Markup.image source c.resolution false).text, []⟩ := by
  simp only [image, read]
  change (if source = "" then _ else _) = _
  rw [if_neg (ne_empty_of_decode accepted), accepted]

/-- A source that is refused is reported, unless there is none. -/
theorem image_rejected {fault : Fault} (read : Params.Image.imageSrc.read params = .ok source)
    (rejected : decode source = .error fault) (c : Context) (inputs : Inputs) :
    image c params inputs = return .done ⟨if source = "" then []
      else [c.warning "Image node source is not a readable image" fault.message], .ok .empty⟩ := by
  simp only [image, read]
  change (if source = "" then _ else _) = _
  split
  · rfl
  · rw [rejected]

/-- The operator makes the empty fragment, or nothing but the image of its source. -/
def Contained (c : Context) (params : Fields) (inputs : Inputs) : Prop :=
  ∃ (source : String) (log : List String) (fragment : Fragment), Params.Image.imageSrc.read params = .ok source ∧
    image c params inputs = (return .done ⟨log, .ok fragment⟩) ∧
    (fragment = .empty ∨ fragment.defs = [] ∧ Shows source fragment.markup)

/-- What is returned is known. -/
theorem return_inj {w w' : Work} (h : (return w : Drawing Work) = return w') : w = w' :=
  Except.ok.inj (Prod.mk.inj (congrFun h default)).1

/-- Whatever the parameters are, there is a source, and it stays between its quotes if and only if it is refused or
holds no quote. -/
theorem contained_iff (c : Context) (params : Fields) (inputs : Inputs) :
    ∃ source, Params.Image.imageSrc.read params = .ok source ∧
      (Contained c params inputs ↔ ('"' ∈ source.toList → ∃ fault, decode source = .error fault)) := by
  obtain ⟨source, read⟩ := exists_source params
  refine ⟨source, read, ?_⟩
  cases decoded : decode source with
  | error fault =>
    have run := image_rejected read decoded c inputs
    exact ⟨fun _ _ => ⟨fault, rfl⟩, fun _ => ⟨source, _, .empty, read, run, .inl rfl⟩⟩
  | ok p =>
    have run := image_accepted read decoded c inputs
    have shown := shows_image_iff source c.resolution
    constructor
    · rintro ⟨source', log, fragment, read', run', contained⟩ quoted
      obtain rfl := Except.ok.inj (read.symm.trans read')
      -- there is but one fragment that the operator can have made, and it is not empty
      obtain ⟨-, made⟩ := Outcome.mk.inj (Work.done.inj (return_inj (run.symm.trans run')))
      obtain rfl := Except.ok.inj made
      rcases contained with nothing | ⟨-, shows_⟩
      · have empty := congrArg (fun f => f.markup.toList) nothing
        simp [Fragment.empty, image_eq_leaf, leaf, Markup.text] at empty
      · exact absurd quoted (shown.mp shows_)
    · intro quiet
      refine ⟨source, [], _, read, run, .inr ⟨rfl, shown.mpr fun quoted => ?_⟩⟩
      obtain ⟨fault, other⟩ := quiet quoted
      cases other

/-! ## Sources that break out -/

/-- The parameters of an image with a source. -/
def sourced (source : String) : Fields := [("imageSrc", .text source)]

theorem read_sourced (accepted : decode source = .ok p) :
    Params.Image.imageSrc.read (sourced source) = .ok source := by
  change Except.ok (((if source = "" then none else some source) : Option String).getD "") = _
  rw [if_neg (ne_empty_of_decode accepted)]
  rfl

/-- An accepted source with a quote in it breaks out. -/
theorem not_contained (accepted : decode source = .ok p) (quoted : '"' ∈ source.toList) :
    ¬ Contained c (sourced source) inputs := by
  obtain ⟨source', read, contained⟩ := contained_iff c (sourced source) inputs
  obtain rfl := Except.ok.inj ((read_sourced accepted).symm.trans read)
  intro inside
  obtain ⟨fault, rejected⟩ := contained.mp inside quoted
  exact nomatch rejected.symm.trans accepted

/-- A quote may stand anywhere in the encoded part, and so every picture has a source that breaks out. -/
theorem decode_quoted (payload : payload? uri = some body) (accepted : decode (uri ++ more) = .ok p) :
    decode (uri ++ "\"" ++ more) = .ok p ∧ ¬ Contained c (sourced (uri ++ "\"" ++ more)) inputs := by
  have pass : ∀ c ∈ "\"".toList, IsSkipped c := by
    intro c mem
    obtain rfl : c = '"' := by simpa using mem
    exact ⟨by decide, by decide, by decide⟩
  have still : decode (uri ++ "\"" ++ more) = .ok p := (decode_skips payload pass more).trans accepted
  exact ⟨still, not_contained still (by simp)⟩

/-- Behind the padding that completes the picture any attribute may follow. -/
theorem image_adds_attribute (open_ : decode uri = .error .badEncoding) (closed : decode (uri ++ "=") = .ok p)
    (unquoted : '"' ∉ uri.toList) (word : IsWord name) (plain : '"' ∉ value.toList)
    (ascii : IsAscii (name ++ value)) (c : Context) (inputs : Inputs) :
    ∃ markup, decode (uri ++ "=" ++ ("\" " ++ name ++ "=\"" ++ value)) = .ok p ∧
      image c (sourced (uri ++ "=" ++ ("\" " ++ name ++ "=\"" ++ value))) inputs = Drawing.answer ⟨markup, []⟩ ∧
      tags? markup.toList =
        some [.start "image" (("href", uri ++ "=") :: (name, value) :: placement c.resolution) true] := by
  have signs : IsAscii "\" " ∧ IsAscii "=\"" := by decide
  have plainly : IsAscii ("\" " ++ name ++ "=\"" ++ value) := by
    simp only [isAscii_append] at ascii ⊢
    exact ⟨⟨⟨signs.1, ascii.1⟩, signs.2⟩, ascii.2⟩
  have accepted : decode (uri ++ "=" ++ ("\" " ++ name ++ "=\"" ++ value)) = .ok p :=
    decode_append_padded open_ closed plainly
  refine ⟨_, accepted, image_accepted (read_sourced accepted) accepted c inputs, tags?_eq_some.mpr ?_⟩
  have split : (Markup.image (uri ++ "=" ++ ("\" " ++ name ++ "=\"" ++ value)) c.resolution false).text =
      (leaf "image" (("href", uri ++ "=") :: (name, value) :: placement c.resolution)).text :=
    String.toList_inj.mp (by simp [image_eq_leaf, leaf, Markup.text, attributesText, attributeText, String.join_cons])
  rw [split]
  exact spells_image (by simp [unquoted]) (List.forall_mem_cons.mpr ⟨⟨word, plain⟩, placement_words c.resolution⟩)

/-- Behind the padding that completes the picture any elements may follow; an image without a source follows them. -/
theorem image_adds_elements {tags : List Tag} (open_ : decode uri = .error .badEncoding)
    (closed : decode (uri ++ "=") = .ok p) (unquoted : '"' ∉ uri.toList) (spelled : Spells tags more.toList)
    (ascii : IsAscii more) (c : Context) (inputs : Inputs) :
    ∃ markup, decode (uri ++ "=" ++ ("\"/>" ++ more ++ "<image href=\"")) = .ok p ∧
      image c (sourced (uri ++ "=" ++ ("\"/>" ++ more ++ "<image href=\""))) inputs = Drawing.answer ⟨markup, []⟩ ∧
      tags? markup.toList = some (.start "image" [("href", uri ++ "=")] true ::
        (tags ++ [.start "image" (("href", "") :: placement c.resolution) true])) := by
  have signs : IsAscii "\"/>" ∧ IsAscii "<image href=\"" := by decide
  have plainly : IsAscii ("\"/>" ++ more ++ "<image href=\"") := by
    simp only [isAscii_append]
    exact ⟨⟨signs.1, ascii⟩, signs.2⟩
  have accepted : decode (uri ++ "=" ++ ("\"/>" ++ more ++ "<image href=\"")) = .ok p :=
    decode_append_padded open_ closed plainly
  refine ⟨_, accepted, image_accepted (read_sourced accepted) accepted c inputs, tags?_eq_some.mpr ?_⟩
  have split : (Markup.image (uri ++ "=" ++ ("\"/>" ++ more ++ "<image href=\"")) c.resolution false).text =
      (leaf "image" [("href", uri ++ "=")]).text ++ (more ++ (Markup.image "" c.resolution false).text) :=
    String.toList_inj.mp (by simp [image_eq_leaf, leaf, Markup.text, attributesText, attributeText, String.join_cons])
  have first : Spells [.start "image" [("href", uri ++ "=")] true] (leaf "image" [("href", uri ++ "=")]).text.toList :=
    spells_image (by simp [unquoted]) fun _ mem => absurd mem List.not_mem_nil
  have last : Spells [.start "image" (("href", "") :: placement c.resolution) true]
      (Markup.image "" c.resolution false).text.toList := spells_image (by decide) (placement_words c.resolution)
  rw [split, String.toList_append, String.toList_append]
  exact first.append (spelled.append last)

/-- The encoding of a picture of one pixel, all but the last character of its padding. -/
def pixelText : String :=
  "iVBORw0KGgoAAAANSUhEUgAAAAEAAAABCAAAAAA6fptVAAAADUlEQVR4AQECAP3/AAAAAgABfgUN0gAAAABJRU5ErkJggg="

def pixelUri : String := "data:image/png;base64," ++ pixelText

theorem payload?_pixelUri : payload? pixelUri = some pixelText := payload?_png pixelText

theorem pixelText_ascii : IsAscii pixelText := by decide +kernel

theorem pixelUri_open : decode pixelUri = .error .badEncoding := by
  have incomplete : Base64.decode? pixelText.toUTF8 = none := by decide +kernel
  rw [decode_eq payload?_pixelUri pixelText_ascii, ← Base64.decode?_eq, incomplete]

theorem pixelUri_closed : ∃ p, decode (pixelUri ++ "=") = .ok p := by
  have ascii : IsAscii (pixelText ++ "=") := isAscii_append.mpr ⟨pixelText_ascii, by decide⟩
  have readable : ((Base64.decode? (pixelText ++ "=").toUTF8).any fun bytes => (Png.decode bytes).isOk) = true := by
    decide +kernel
  rw [decode_eq (payload?_append payload?_pixelUri "=") ascii, ← Base64.decode?_eq]
  cases complete : Base64.decode? (pixelText ++ "=").toUTF8 with
  | none =>
    rw [complete] at readable
    cases readable
  | some bytes =>
    rw [complete, Option.any_some] at readable
    cases picture : Png.decode bytes with
    | ok p => exact ⟨p, congrArg (Except.mapError Fault.unreadable) picture⟩
    | error fault =>
      rw [picture] at readable
      cases readable

/-- The picture with a script behind it. -/
def scriptUri : String := pixelUri ++ "=\" onload=\"alert(1)"

/-- A source that is accepted adds an attribute, here a script, to the image. -/
theorem image_source_breaks_out :
    ∃ markup, image ⟨{}, .pixels 8, false, "n"⟩ (sourced scriptUri) [] = Drawing.answer ⟨markup, []⟩ ∧
      tags? markup.toList = some [.start "image" [("href", pixelUri ++ "="), ("onload", "alert(1)"), ("x", "0"),
        ("y", "0"), ("width", "8"), ("height", "8"), ("preserveAspectRatio", "none")] true] ∧
      ¬ Contained ⟨{}, .pixels 8, false, "n"⟩ (sourced scriptUri) [] := by
  have whole : pixelUri ++ "=" ++ ("\" " ++ "onload" ++ "=\"" ++ "alert(1)") = scriptUri := by decide +kernel
  obtain ⟨p, closed⟩ := pixelUri_closed
  have ascii : IsAscii ("onload" ++ "alert(1)") := by decide
  obtain ⟨markup, accepted, run, read⟩ := image_adds_attribute pixelUri_open closed (by decide +kernel)
    (by decide) (by decide) ascii ⟨{}, .pixels 8, false, "n"⟩ []
  rw [whole] at accepted run
  exact ⟨markup, run, read, not_contained accepted (by decide +kernel)⟩

end VectorGraph.Operator
