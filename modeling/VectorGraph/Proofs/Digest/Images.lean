import VectorGraph.Engine.Step
import VectorGraph.Proofs.Json.Canonical

/-!
What the bytes that are digested tell.

The image of a fragment sets its texts apart by zero characters, and the image of inputs sets sockets and digests apart
by an equals sign and a semicolon. Neither escapes these where they stand in a text or in a name. So there are different
inputs with one image and different fragments with one image (`images_ambiguous`).

Texts without a zero character are told apart (`Fragment.image_eq_iff`). Inputs are told apart unless the name of a
socket holds what looks like a digest between its signs (`inputsImage_eq_iff`): a name ends at the first such place, as
no digest holds one of the signs and all digests are equally long.
-/
namespace VectorGraph

theorem toUTF8_append (s t : String) : (s ++ t).toUTF8 = s.toUTF8 ++ t.toUTF8 := String.toByteArray_append ..

/-! ## Fragments -/

namespace Fragment

/-- The text whose bytes are the image. -/
def imageText (f : Fragment) : List Char := f.markup.toList ++ f.defs.flatMap fun d => '\x00' :: d.toList

/-- No text of the fragment holds the character that sets them apart. -/
def ZeroFree (f : Fragment) : Prop := ∀ s ∈ f.markup :: f.defs, ∀ c ∈ s.toList, (c != '\x00') = true

theorem push_zero (bytes : ByteArray) : bytes.push 0 = bytes ++ "\x00".toUTF8 := by
  ext1
  rw [ByteArray.data_append]
  exact Array.append_singleton.symm

theorem image_eq_toUTF8 (f : Fragment) : f.image = (String.ofList f.imageText).toUTF8 := by
  have each : ∀ (defs : List String) (front : List Char),
      defs.foldl (fun bytes d => bytes.push 0 ++ d.toUTF8) (String.ofList front).toUTF8 =
        (String.ofList (front ++ defs.flatMap fun d => '\x00' :: d.toList)).toUTF8 := by
    intro defs
    induction defs with
    | nil => intro front; rw [List.flatMap_nil, List.append_nil]; rfl
    | cons d rest ih =>
      intro front
      have next : (String.ofList front).toUTF8.push 0 ++ d.toUTF8 =
          (String.ofList (front ++ '\x00' :: d.toList)).toUTF8 := by
        rw [push_zero, ← toUTF8_append, ← toUTF8_append]
        congr 1
        rw [← String.toList_inj]
        simp
      rw [List.foldl_cons, next, ih, List.flatMap_cons, List.append_assoc]
  have whole := each f.defs f.markup.toList
  rwa [String.ofList_toList] at whole

theorem image_eq_iff_imageText {f g : Fragment} : f.image = g.image ↔ f.imageText = g.imageText := by
  rw [image_eq_toUTF8, image_eq_toUTF8]
  exact String.toByteArray_inj.trans String.ofList_inj

/-- Texts that are set apart by a character that none of them holds are told apart. -/
theorem texts_inj {markup markup' : String} {defs defs' : List String} (free : (Fragment.mk markup defs).ZeroFree)
    (free' : (Fragment.mk markup' defs').ZeroFree)
    (h : (Fragment.mk markup defs).imageText = (Fragment.mk markup' defs').imageText) :
    markup = markup' ∧ defs = defs' := by
  have ends : ∀ defs : List String, Ends (· != '\x00') (defs.flatMap fun d => '\x00' :: d.toList) := by
    intro defs
    cases defs with
    | nil => exact ends_nil
    | cons d rest => exact ends_cons rfl _
  induction defs generalizing markup markup' defs' with
  | nil =>
    obtain ⟨text, rest⟩ := append_inj_of_ends (free _ List.mem_cons_self) (free' _ List.mem_cons_self) (ends _)
      (ends _) h
    cases defs' with
    | nil => exact ⟨String.toList_inj.mp text, rfl⟩
    | cons d' rest' => cases rest
  | cons d defs ih =>
    obtain ⟨text, rest⟩ := append_inj_of_ends (free _ List.mem_cons_self) (free' _ List.mem_cons_self) (ends _)
      (ends _) h
    cases defs' with
    | nil => cases rest
    | cons d' defs' =>
      obtain ⟨first, later⟩ := ih (fun s hs => free s (List.mem_cons_of_mem _ hs))
        (fun s hs => free' s (List.mem_cons_of_mem _ hs)) (List.cons.inj rest).2
      exact ⟨String.toList_inj.mp text, by rw [first, later]⟩

/-- Fragments whose texts hold no zero character have one image only if they are one. -/
theorem image_eq_iff {f g : Fragment} (hf : f.ZeroFree) (hg : g.ZeroFree) : f.image = g.image ↔ f = g := by
  refine ⟨fun h => ?_, fun h => by rw [h]⟩
  obtain ⟨markup, defs⟩ := texts_inj hf hg (image_eq_iff_imageText.mp h)
  obtain ⟨_, _⟩ := f
  obtain ⟨_, _⟩ := g
  rw [Fragment.mk.injEq]
  exact ⟨markup, defs⟩

end Fragment

/-! ## Digests -/

/-- What a digest looks like: forty lower-case hexadecimal digits. -/
def LooksDigested (cs : List Char) : Prop := cs.length = 40 ∧ ∀ c ∈ cs, c ∈ "0123456789abcdef".toList

theorem Sha1.mem_hexWord {w : UInt32} {c : Char} (h : c ∈ hexWord w) : c ∈ "0123456789abcdef".toList := by
  obtain ⟨i, -, rfl⟩ := List.mem_map.mp h
  have digit : ∀ n < 16, hexChar n ∈ "0123456789abcdef".toList := by decide
  exact digit _ (Nat.mod_lt _ (by decide))

theorem Sha1.length_hexWord (w : UInt32) : (hexWord w).length = 8 := by
  rw [hexWord, List.length_map, List.length_range]

theorem Sha1.looksDigested_hex (message : ByteArray) : LooksDigested (hex message).toList := by
  rw [hex, String.toList_ofList]
  refine ⟨?_, fun c hc => ?_⟩
  · simp only [List.length_append, length_hexWord]
  · simp only [List.mem_append] at hc
    rcases hc with (((hc | hc) | hc) | hc) | hc <;> exact mem_hexWord hc

/-- A digest does not hold the sign that stands before it. -/
theorem LooksDigested.not_mem {cs : List Char} (h : LooksDigested cs) : '=' ∉ cs := fun mem =>
  absurd (h.2 '=' mem) (by decide)

/-! ## Inputs -/

/-- The name of a socket holds what could be a digest, between the signs that enclose one. -/
def Misleading (name : List Char) : Prop :=
  ∃ before cs after, name = before ++ '=' :: (cs ++ ';' :: after) ∧ LooksDigested cs

/-- The name of a socket and the digest of the fragment in it. -/
def signed (digest : Digest) (i : String × Fragment) : String × String := (i.1, digest i.2.image)

/-- A name and a digest as they stand in the image of inputs. -/
def signedText (s : String × String) : List Char := s.1.toList ++ '=' :: (s.2.toList ++ [';'])

theorem inputsImage_eq_toUTF8 (digest : Digest) (inputs : Inputs) : inputsImage digest inputs =
    (String.ofList ((Json.sortFields (inputs.map (signed digest))).flatMap signedText)).toUTF8 := by
  have each : ∀ (inputs : Inputs) (front : List Char),
      inputs.foldl (fun bytes i =>
          bytes ++ i.1.toUTF8 ++ "=".toUTF8 ++ (digest i.2.image).toUTF8 ++ ";".toUTF8) (String.ofList front).toUTF8 =
        (String.ofList (front ++ (inputs.map (signed digest)).flatMap signedText)).toUTF8 := by
    intro inputs
    induction inputs with
    | nil => intro front; rw [List.map_nil, List.flatMap_nil, List.append_nil]; rfl
    | cons i rest ih =>
      obtain ⟨socket, f⟩ := i
      intro front
      have next : (String.ofList front).toUTF8 ++ socket.toUTF8 ++ "=".toUTF8 ++ (digest f.image).toUTF8 ++ ";".toUTF8 =
          (String.ofList (front ++ signedText (signed digest (socket, f)))).toUTF8 := by
        simp only [← toUTF8_append]
        congr 1
        rw [← String.toList_inj]
        simp [signedText, signed]
      refine (congrArg (fun bytes => List.foldl _ bytes rest) next).trans ?_
      rw [ih, List.map_cons, List.flatMap_cons, List.append_assoc]
  have sorted : Json.sortFields (inputs.map (signed digest)) =
      (inputs.mergeSort fun a b => !(b.1 < a.1)).map (signed digest) :=
    (List.map_mergeSort (r := fun a b : String × Fragment => !(b.1 < a.1)) (fun _ _ _ _ => rfl)).symm
  rw [sorted]
  exact each _ []

/-- A name that goes on where another one ends is misleading. -/
theorem misleading_of_longer {cs after w t : List Char} (looks : LooksDigested cs) (longer : t ≠ [])
    (h : '=' :: (cs ++ ';' :: after) = t ++ '=' :: w) (front : List Char) : Misleading (front ++ t) := by
  obtain ⟨c, t, rfl⟩ := List.exists_cons_of_ne_nil longer
  obtain rfl := (List.cons.inj h).1
  rcases List.append_eq_append_iff.mp (List.cons.inj h).2 with ⟨x, ht, hx⟩ | ⟨x, hcs, hx⟩
  · cases x with
    | nil => exact absurd (List.cons.inj hx).1 (by decide)
    | cons c x =>
      obtain ⟨rfl, -⟩ := List.cons.inj hx
      exact ⟨front, cs, x, by rw [ht], looks⟩
  · cases x with
    | nil => exact absurd (List.cons.inj hx).1.symm (by decide)
    | cons c x =>
      obtain ⟨rfl, -⟩ := List.cons.inj hx
      exact absurd (hcs ▸ List.mem_append_right _ List.mem_cons_self) looks.not_mem

variable {s s' : String × String}

/-- Where a name is not misleading, the image of inputs that begins with it tells the name, its digest and the rest. -/
theorem signedText_append_inj {r r' : List Char} (hs : ¬Misleading s.1.toList) (hs' : ¬Misleading s'.1.toList)
    (looks : LooksDigested s.2.toList) (looks' : LooksDigested s'.2.toList)
    (h : signedText s ++ r = signedText s' ++ r') : s = s' ∧ r = r' := by
  have h : s.1.toList ++ '=' :: (s.2.toList ++ ';' :: r) = s'.1.toList ++ '=' :: (s'.2.toList ++ ';' :: r') := by
    simpa [signedText] using h
  have names : s.1.toList = s'.1.toList := by
    rcases List.append_eq_append_iff.mp h with ⟨t, name, rest⟩ | ⟨t, name, rest⟩
    · by_cases none_ : t = []
      · rw [name, none_, List.append_nil]
      · exact absurd (name ▸ misleading_of_longer looks none_ rest _) hs'
    · by_cases none_ : t = []
      · rw [name, none_, List.append_nil]
      · exact absurd (name ▸ misleading_of_longer looks' none_ rest _) hs
  rw [names] at h
  have digests := (List.cons.inj (List.append_cancel_left h)).2
  obtain ⟨digest, rest⟩ := List.append_inj digests (looks.1.trans looks'.1.symm)
  exact ⟨Prod.ext (String.toList_inj.mp names) (String.toList_inj.mp digest), (List.cons.inj rest).2⟩

theorem flatMap_signedText_inj {l l' : List (String × String)}
    (hl : ∀ s ∈ l, ¬Misleading s.1.toList ∧ LooksDigested s.2.toList)
    (hl' : ∀ s ∈ l', ¬Misleading s.1.toList ∧ LooksDigested s.2.toList)
    (h : l.flatMap signedText = l'.flatMap signedText) : l = l' := by
  have some_ : ∀ s (rest : List (String × String)), (s :: rest).flatMap signedText ≠ [] := by
    intro s rest
    simp [signedText]
  induction l generalizing l' with
  | nil =>
    cases l' with
    | nil => rfl
    | cons s' rest' => exact absurd h.symm (some_ s' rest')
  | cons s rest ih =>
    cases l' with
    | nil => exact absurd h (some_ s rest)
    | cons s' rest' =>
      obtain ⟨plain, looks⟩ := hl s List.mem_cons_self
      obtain ⟨plain', looks'⟩ := hl' s' List.mem_cons_self
      obtain ⟨same, after⟩ := signedText_append_inj plain plain' looks looks' h
      rw [same, ih (fun s hs => hl s (List.mem_cons_of_mem _ hs)) (fun s hs => hl' s (List.mem_cons_of_mem _ hs)) after]

/-- Inputs whose sockets have distinct names that do not mislead have one image if and only if they have the same
sockets and the fragment in each has the same digest. -/
theorem inputsImage_eq_iff {inputs inputs' : Inputs} (distinct : (inputs.map (·.1)).Nodup)
    (plain : ∀ i ∈ inputs, ¬Misleading i.1.toList) (plain' : ∀ i ∈ inputs', ¬Misleading i.1.toList) :
    inputsImage Sha1.hex inputs = inputsImage Sha1.hex inputs' ↔
      (inputs.map (signed Sha1.hex)).Perm (inputs'.map (signed Sha1.hex)) := by
  have told : ∀ {inputs : Inputs}, (∀ i ∈ inputs, ¬Misleading i.1.toList) →
      ∀ s ∈ Json.sortFields (inputs.map (signed Sha1.hex)), ¬Misleading s.1.toList ∧ LooksDigested s.2.toList := by
    intro inputs plain s hs
    obtain ⟨i, hi, rfl⟩ := List.mem_map.mp (List.mem_mergeSort.mp hs)
    exact ⟨plain i hi, Sha1.looksDigested_hex _⟩
  rw [inputsImage_eq_toUTF8, inputsImage_eq_toUTF8]
  refine ⟨fun h => ?_, fun h => ?_⟩
  · have same := flatMap_signedText_inj (told plain) (told plain') (String.ofList_inj.mp (String.toByteArray_inj.mp h))
    exact (List.mergeSort_perm _ _).symm.trans ((List.Perm.of_eq same).trans (List.mergeSort_perm _ _))
  · rw [Json.sortFields_eq_of_perm (by rwa [List.map_map]) h]

/-! ## What is not told -/

/-- A definition and a zero character before it may stand in the markup as well. -/
theorem Fragment.image_merged (markup d : String) (defs : List String) :
    Fragment.image ⟨markup ++ "\x00" ++ d, defs⟩ = Fragment.image ⟨markup, d :: defs⟩ := by
  rw [image_eq_iff_imageText]
  simp [imageText]

/-- A socket and the digest of its fragment may stand in the name of the next socket as well. -/
theorem inputsImage_merged (digest : Digest) {p q : String} (order : p ≤ q) (f g : Fragment) :
    inputsImage digest [(p, f), (q, g)] = inputsImage digest [(p ++ "=" ++ digest f.image ++ ";" ++ q, g)] := by
  have sorted : Json.sortFields [(p, digest f.image), (q, digest g.image)] =
      [(p, digest f.image), (q, digest g.image)] :=
    List.mergeSort_of_pairwise (List.pairwise_pair.mpr (by
      rw [Bool.not_eq_true', decide_eq_false_iff_not]
      exact String.not_lt.mpr order))
  rw [inputsImage_eq_toUTF8, inputsImage_eq_toUTF8]
  congr 2
  show (Json.sortFields [(p, digest f.image), (q, digest g.image)]).flatMap signedText = _
  rw [sorted, List.map_singleton, Json.sortFields, List.mergeSort_singleton]
  simp [signedText, signed]

/-- A node with something in a socket is looked up under the same key as the node with nothing in it and a socket of
such a name, whatever the digest is. -/
theorem Engine.keyFor_merged (e : Engine) (resolution : Extent) (node : Node) {p q : String} (order : p ≤ q)
    (f g : Fragment) : e.keyFor resolution node [(p, f), (q, g)] =
      e.keyFor resolution node [(p ++ "=" ++ e.digest f.image ++ ";" ++ q, g)] := by
  rw [keyFor, keyFor, inputsImage_merged e.digest order]

/-- Two sockets with empty fragments have the image of one socket with an empty fragment, and a markup with a zero
character has the image of a markup with a definition. -/
theorem images_ambiguous :
    (inputsImage Sha1.hex [("a", .empty), ("b", .empty)] =
        inputsImage Sha1.hex [("a=da39a3ee5e6b4b0d3255bfef95601890afd80709;b", .empty)] ∧
      ["a", "b"] ≠ ["a=da39a3ee5e6b4b0d3255bfef95601890afd80709;b"]) ∧
    (Fragment.image ⟨"a\x00b", []⟩ = Fragment.image ⟨"a", ["b"]⟩ ∧
      (⟨"a\x00b", []⟩ : Fragment) ≠ ⟨"a", ["b"]⟩) := by
  have digest : Sha1.hex Fragment.empty.image = "da39a3ee5e6b4b0d3255bfef95601890afd80709" := by decide +kernel
  have merged := inputsImage_merged Sha1.hex (show "a" ≤ "b" by decide) .empty .empty
  rw [digest] at merged
  exact ⟨⟨merged, by decide⟩, Fragment.image_merged "a" "b" [], by decide⟩

end VectorGraph
