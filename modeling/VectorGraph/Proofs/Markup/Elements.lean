import VectorGraph.Proofs.Number.Plain

/-!
Elements that keep to the rules.

Lists of attributes are gone through one by one: most have a plain value, one may have a reference, and one
may be the `id`. From these the elements are put together that all operators use.
-/
namespace VectorGraph.Markup

variable {rules : Rules} {name value id : String} {attributes rest : Attributes} {m : Markup}
  {children : List Markup}

/-! ## Attributes -/

/-- The name of an attribute other than `id`. -/
def isQuiet (name : String) : Bool := isName name && name != "id"

theorem soundAttribute_of_isQuiet (hn : isQuiet name = true) (hv : Fit rules.known value) :
    SoundAttribute rules (name, value) := by
  rw [isQuiet, Bool.and_eq_true, bne_iff_ne] at hn
  exact ⟨hn.1, fun _ => hn.2, hv⟩

/-- Attributes that keep to the rules. -/
def SoundList (rules : Rules) (attributes : Attributes) : Prop :=
  ∀ a ∈ attributes, SoundAttribute rules a

namespace SoundList

theorem nil : SoundList rules [] := fun a ha => by cases ha

theorem fit (hn : isQuiet name = true) (hv : Fit rules.known value) (hr : SoundList rules rest) :
    SoundList rules ((name, value) :: rest) :=
  List.forall_mem_cons.mpr ⟨soundAttribute_of_isQuiet hn hv, hr⟩

theorem plain (hn : isQuiet name = true) (hv : Plain value) (hr : SoundList rules rest) :
    SoundList rules ((name, value) :: rest) :=
  fit hn (hv.fit rules.known) hr

/-- Constant values are plain if they can be seen to be. -/
theorem const (hn : isQuiet name = true) (hv : value.toList.all isPlain = true)
    (hr : SoundList rules rest) : SoundList rules ((name, value) :: rest) :=
  plain hn (plain_of_all hv) hr

theorem reference (hn : isQuiet name = true) (mem : id ∈ rules.known)
    (chars : ∀ c ∈ id.toList, isIdChar c = true) (hr : SoundList rules rest) :
    SoundList rules ((name, Markup.reference id) :: rest) :=
  fit hn (fit_reference mem chars) hr

theorem plain_of_isIdChar (chars : ∀ c ∈ id.toList, isIdChar c = true) : Plain id := by
  intro c mem
  have hc := chars c mem
  unfold isPlain
  by_contra special
  simp only [Bool.and_eq_true, bne_iff_ne, not_and_or, not_not] at special
  rcases special with (rfl | rfl) | rfl <;> revert hc <;> decide

theorem named (loud : rules.silent = false) (chars : ∀ c ∈ id.toList, isIdChar c = true)
    (hr : SoundList rules rest) : SoundList rules (("id", id) :: rest) := by
  refine List.forall_mem_cons.mpr ⟨⟨show isName "id" = true by decide, fun silent => ?_,
    (plain_of_isIdChar chars).fit _⟩, hr⟩
  rw [loud] at silent
  cases silent

theorem append {more : Attributes} (h : SoundList rules attributes) (hm : SoundList rules more) :
    SoundList rules (attributes ++ more) := by
  intro a mem
  exact (List.mem_append.mp mem).elim (h a) (hm a)

end SoundList

/-! ## Elements -/

theorem allSound_of_forall : ∀ {children : List Markup}, (∀ m ∈ children, Sound rules m) →
    AllSound rules children
  | [], _ => by
    unfold AllSound
    trivial
  | m :: rest, h => by
    unfold AllSound
    obtain ⟨hm, hr⟩ := List.forall_mem_cons.mp h
    exact ⟨hm, allSound_of_forall hr⟩

theorem sound_element (hn : isName name = true) (ha : SoundList rules attributes)
    (hc : ∀ m ∈ children, Sound rules m) : Sound rules (.element name attributes children) := by
  unfold Sound
  exact ⟨hn, ha, allSound_of_forall hc⟩

theorem sound_leaf (hn : isName name = true) (ha : SoundList rules attributes) :
    Sound rules (leaf name attributes) :=
  sound_element hn ha fun m hm => by cases hm

theorem sound_group {markup : String} (ha : SoundList rules attributes) (sane : Sane rules markup)
    (balanced : Balanced markup) : Sound rules (group attributes markup) := by
  refine sound_element (by decide) ha fun m hm => ?_
  rw [List.mem_singleton.mp hm]
  unfold Sound
  exact ⟨sane, balanced⟩

theorem sound_square {before : Attributes} {resolution : Extent} {fill : String}
    (hb : SoundList rules before) (hf : Fit rules.known fill) :
    Sound rules (square before resolution fill) :=
  sound_leaf (by decide) <| hb.append <| .const (by decide) (by decide) <| .const (by decide) (by decide) <|
    .plain (by decide) (plain_attributeText resolution) <|
    .plain (by decide) (plain_attributeText resolution) <| .fit (by decide) hf .nil

theorem sound_image {href : String} {resolution : Extent} {pixelated : Bool}
    (hh : Fit rules.known href) : Sound rules (image href resolution pixelated) := by
  have style : SoundList rules (if pixelated then [("style", "image-rendering: pixelated")] else []) := by
    split
    · exact .const (by decide) (by decide) .nil
    · exact .nil
  exact sound_leaf (by decide) <| style.append <| .fit (by decide) hh <| .const (by decide) (by decide) <|
    .const (by decide) (by decide) <| .plain (by decide) (plain_attributeText resolution) <|
    .plain (by decide) (plain_attributeText resolution) <| .const (by decide) (by decide) .nil

/-! ## Ids -/

theorem treeIds_element :
    (Markup.element name attributes children).treeIds = idsOf attributes ++ forestIds children := by
  unfold treeIds
  rfl

theorem treeIds_leaf : (leaf name attributes).treeIds = idsOf attributes := by
  unfold leaf
  rw [treeIds_element, forestIds, List.append_nil]

theorem treeIds_group (markup : String) : (group attributes markup).treeIds =
    idsOf attributes ++ definitions markup := by
  unfold group
  rw [treeIds_element, forestIds, forestIds, treeIds, List.append_nil]

theorem forestIds_of_forall : ∀ {children : List Markup}, (∀ m ∈ children, m.treeIds = []) →
    forestIds children = []
  | [], _ => by
    unfold forestIds
    rfl
  | m :: rest, h => by
    unfold forestIds
    obtain ⟨hm, hr⟩ := List.forall_mem_cons.mp h
    rw [hm, forestIds_of_forall hr]
    rfl

end VectorGraph.Markup
