import VectorGraph.Picture.DataUri
import VectorGraph.Proofs.Text.Reach

/-!
Which data URIs are read as a picture.

Base64 is read character by character. Characters outside the alphabet change nothing, and the padding that completes
the data ends it. So a URI keeps its picture if such characters are put anywhere into its encoded part
(`DataUri.decode_skips`), and if anything of ASCII is put behind its last padding character
(`DataUri.decode_append_padded`).
-/
namespace VectorGraph

namespace Base64

/-! ## One character after the other -/

/-- A group of characters that is being read, with the bytes read so far. -/
structure Group where
  filled : Nat := 0
  carry : UInt8 := 0
  pads : Nat := 0
  out : ByteArray := ByteArray.empty

variable {g g' : Group} {c : UInt8} {out : ByteArray} {bytes more : List UInt8}

/-- Reads a character; the bytes are returned as an exception if it ends the data. -/
def Group.next (g : Group) (c : UInt8) : Except ByteArray Group :=
  if c == 61 then
    if 2 ≤ g.filled then
      if 4 ≤ g.filled + (g.pads + 1) then .error g.out else .ok { g with pads := g.pads + 1 }
    else .ok g
  else
    match value? c with
    | none => .ok g
    | some v =>
      match g.filled with
      | 0 => .ok ⟨1, v, 0, g.out⟩
      | 1 => .ok ⟨2, v &&& 15, 0, g.out.push ((g.carry <<< 2) ||| (v >>> 4))⟩
      | 2 => .ok ⟨3, v &&& 3, 0, g.out.push ((g.carry <<< 4) ||| (v >>> 2))⟩
      | _ => .ok ⟨0, 0, 0, g.out.push ((g.carry <<< 6) ||| v)⟩

/-- Where the characters are at their end, the last group has to be complete. -/
def finished? : Except ByteArray Group → Option ByteArray
  | .error out => some out
  | .ok g => if g.filled = 0 then some g.out else none

theorem decodeFrom_succ (text : ByteArray) (count i : Nat) (g : Group) :
    decodeFrom text (count + 1) i g.filled g.carry g.pads g.out =
      match g.next (text.get! i) with
      | .error out => some out
      | .ok g => decodeFrom text count (i + 1) g.filled g.carry g.pads g.out := by
  rw [decodeFrom, Group.next]
  by_cases padding : (text.get! i == 61) = true
  · rw [if_pos padding, if_pos padding]
    split
    · split <;> rfl
    · rfl
  · rw [if_neg padding, if_neg padding]
    cases value? (text.get! i) with
    | none => rfl
    | some v =>
      obtain ⟨filled, carry, pads, out⟩ := g
      rcases filled with _ | _ | _ | filled <;> rfl

theorem decodeFrom_eq (text : ByteArray) : ∀ (count i : Nat) (g : Group), i + count = text.size →
    decodeFrom text count i g.filled g.carry g.pads g.out =
      finished? ((text.data.toList.drop i).foldlM Group.next g) := by
  intro count
  induction count with
  | zero =>
    intro i g whole
    have none_ : text.data.toList.drop i = [] := List.drop_eq_nil_of_le (by simpa using whole.ge)
    rw [none_]
    rfl
  | succ count ih =>
    intro i g whole
    have inside : i < text.data.toList.length := by
      rw [Array.length_toList]
      change i < text.size
      omega
    have here : text.get! i = text.data.toList[i] := by
      rw [Array.getElem_toList]
      exact getElem!_pos text.data i inside
    rw [decodeFrom_succ, List.drop_eq_getElem_cons inside, List.foldlM_cons, here]
    cases g.next text.data.toList[i] with
    | error out => rfl
    | ok g => exact ih (i + 1) g (by omega)

/-- Base64 is read character by character. -/
theorem decode?_eq (text : ByteArray) : decode? text = finished? (text.data.toList.foldlM Group.next {}) :=
  decodeFrom_eq text text.size 0 {} (Nat.zero_add _)

theorem next_of_skipped (padding : c ≠ 61) (outside : value? c = none) : g.next c = .ok g := by
  simp [Group.next, padding, outside]

/-- Padding ends the data, or leaves as many characters in the group as there were. -/
theorem next_padding (g : Group) : g.next 61 = .error g.out ∨ ∃ g', g.next 61 = .ok g' ∧ g'.filled = g.filled := by
  unfold Group.next
  rw [if_pos (beq_self_eq_true 61)]
  split
  · split
    · exact .inl rfl
    · exact .inr ⟨_, rfl, rfl⟩
  · exact .inr ⟨_, rfl, rfl⟩

/-- Characters outside the alphabet change nothing. -/
theorem foldlM_skipped (skipped : ∀ c ∈ bytes, c ≠ 61 ∧ value? c = none) (g : Group) :
    bytes.foldlM Group.next g = .ok g := by
  induction bytes with
  | nil => rfl
  | cons c bytes ih =>
    obtain ⟨here, later⟩ := List.forall_mem_cons.mp skipped
    rw [List.foldlM_cons, next_of_skipped here.1 here.2]
    exact ih later

/-- The padding character that completes the data ends it. -/
theorem finished?_padded (open_ : finished? (bytes.foldlM Group.next g) = none)
    (closed : finished? ((bytes ++ [61]).foldlM Group.next g) = some out) :
    (bytes ++ [61] ++ more).foldlM Group.next g = .error out := by
  rw [List.foldlM_append] at closed
  rw [List.foldlM_append, List.foldlM_append]
  cases read : bytes.foldlM Group.next g with
  | error out' =>
    rw [read] at open_
    cases open_
  | ok g' =>
    rw [read] at open_ closed
    change finished? (g'.next 61 >>= fun g => .ok g) = some out at closed
    change ((g'.next 61 >>= fun g => .ok g) >>= fun g => more.foldlM Group.next g) = .error out
    rcases next_padding g' with ends | ⟨g'', goes, same⟩
    · rw [ends] at closed ⊢
      rw [Option.some.inj closed]
      rfl
    · -- the group was incomplete before, and padding that does not end the data adds nothing to it
      have incomplete : ¬ g''.filled = 0 := by
        intro zero
        simp [finished?, same ▸ zero] at open_
      rw [goes] at closed
      change finished? (.ok g'') = some out at closed
      rw [finished?, if_neg incomplete] at closed
      cases closed

end Base64

/-! ## The encoded part -/

namespace DataUri

open Base64

variable {uri body more : String} {p : Picture} {cs rest : List Char}

/-- Texts of ASCII characters. -/
def IsAscii (text : String) : Prop := ∀ c ∈ text.toList, c.toNat < 0x80

instance (text : String) : Decidable (IsAscii text) :=
  decidable_of_iff ((text.toList.all fun c => c.toNat < 0x80) = true) (by simp [IsAscii])

/-- Characters of ASCII that base64 passes over. -/
structure IsSkipped (c : Char) : Prop where
  ascii : c.toNat < 0x80
  padding : c.val.toUInt8 ≠ 61
  outside : value? c.val.toUInt8 = none

theorem afterWord?_eq_some {word : List Char} : afterWord? word cs = some rest ↔ cs = word ++ rest := by
  unfold afterWord?
  constructor
  · intro found
    split at found
    · next lead =>
      obtain ⟨tail, rfl⟩ := List.isPrefixOf_iff_prefix.mp lead
      rw [List.drop_left] at found
      rw [Option.some.inj found]
    · cases found
  · rintro rfl
    rw [if_pos (List.isPrefixOf_iff_prefix.mpr (List.prefix_append _ _)), List.drop_left]

/-- The encoded part follows a subtype that is not empty. -/
theorem payload?_eq_some : payload? uri = some body ↔
    ∃ subtype ≠ [], (∀ c ∈ subtype, isSubtypeChar c = true) ∧
      uri.toList = "data:image/".toList ++ (subtype ++ (";base64,".toList ++ body.toList)) := by
  unfold payload?
  constructor
  · intro found
    obtain ⟨rest, scheme, found⟩ := Option.bind_eq_some_iff.mp found
    split at found
    · cases found
    · next named =>
      obtain ⟨tail, marked, found⟩ := Option.bind_eq_some_iff.mp found
      obtain rfl := Option.some.inj found
      have whole := List.takeWhile_append_dropWhile (p := isSubtypeChar) (l := rest)
      rw [afterWord?_eq_some.mp marked] at whole
      refine ⟨rest.takeWhile isSubtypeChar, fun none_ => named (List.isEmpty_iff.mpr none_),
        fun c => List.mem_takeWhile_imp, ?_⟩
      rw [@String.toList_ofList tail, whole]
      exact afterWord?_eq_some.mp scheme
  · rintro ⟨subtype, named, chars, whole⟩
    have ends : Ends isSubtypeChar (";base64,".toList ++ body.toList) := ends_cons (by decide) _
    obtain ⟨taken, dropped⟩ := cut_append chars ends
    have marked : afterWord? ";base64,".toList (";base64,".toList ++ body.toList) = some body.toList :=
      afterWord?_eq_some.mpr rfl
    refine Option.bind_eq_some_iff.mpr ⟨_, afterWord?_eq_some.mpr whole, ?_⟩
    rw [taken, dropped, if_neg fun none_ => named (List.isEmpty_iff.mp none_)]
    refine Option.bind_eq_some_iff.mpr ⟨_, marked, ?_⟩
    rw [String.ofList_toList]
    rfl

theorem payload?_png (body : String) : payload? ("data:image/png;base64," ++ body) = some body :=
  payload?_eq_some.mpr ⟨"png".toList, by decide, List.all_eq_true.mp (by decide), by simp⟩

/-- What is put behind a URI belongs to its encoded part. -/
theorem payload?_append (h : payload? uri = some body) (more : String) :
    payload? (uri ++ more) = some (body ++ more) := by
  obtain ⟨subtype, named, chars, whole⟩ := payload?_eq_some.mp h
  refine payload?_eq_some.mpr ⟨subtype, named, chars, ?_⟩
  rw [String.toList_append, String.toList_append, whole]
  simp only [List.append_assoc]

theorem isAscii_append {s t : String} : IsAscii (s ++ t) ↔ IsAscii s ∧ IsAscii t := by
  unfold IsAscii
  rw [String.toList_append, List.forall_mem_append]

/-- An encoded part in ASCII is read byte by byte. -/
theorem decode_eq (payload : payload? uri = some body) (ascii : IsAscii body) :
    decode uri = match finished? (body.toUTF8.data.toList.foldlM Group.next {}) with
      | none => .error .badEncoding
      | some bytes => (Png.decode bytes).mapError .unreadable := by
  have off : (body.toList.any fun c => c.toNat ≥ 0x80) = false := by
    rw [List.any_eq_false]
    exact fun c mem => by simpa using ascii c mem
  rw [decode, payload]
  dsimp only
  rw [off, decode?_eq]
  rfl

theorem decode_of_foreign (payload : payload? uri = some body) (foreign : ¬ IsAscii body) :
    decode uri = .error .notAscii := by
  have found : (body.toList.any fun c => c.toNat ≥ 0x80) = true := by
    simpa [IsAscii, List.any_eq_true] using foreign
  rw [decode, payload]
  exact if_pos found

/-- Nothing but an encoded part in ASCII is looked at. -/
theorem exists_payload (other : decode uri ≠ .error .notImageUri) (ascii : decode uri ≠ .error .notAscii) :
    ∃ body, payload? uri = some body ∧ IsAscii body := by
  cases payload : payload? uri with
  | none => exact absurd (by rw [decode, payload]) other
  | some body => exact ⟨body, rfl, not_not.mp fun foreign => ascii (decode_of_foreign payload foreign)⟩

theorem bytes_append (s t : String) :
    (s ++ t).toUTF8.data.toList = s.toUTF8.data.toList ++ t.toUTF8.data.toList := by
  rw [show (s ++ t).toUTF8 = s.toUTF8 ++ t.toUTF8 from String.toByteArray_append .., ByteArray.data_append,
    Array.toList_append]

/-- Anything in ASCII may stand behind the padding character that completes the data. -/
theorem decode_append_padded (open_ : decode uri = .error .badEncoding) (closed : decode (uri ++ "=") = .ok p)
    (ascii : IsAscii more) : decode (uri ++ "=" ++ more) = .ok p := by
  obtain ⟨body, payload, plain⟩ : ∃ body, payload? uri = some body ∧ IsAscii body :=
    exists_payload (by rw [open_]; nofun) (by rw [open_]; nofun)
  have padded : IsAscii (body ++ "=") := isAscii_append.mpr ⟨plain, by decide⟩
  have payload' := payload?_append payload "="
  have payload'' := payload?_append payload' more
  have sign : "=".toUTF8.data.toList = [61] := by decide
  rw [decode_eq payload plain] at open_
  rw [decode_eq payload' padded, bytes_append, sign] at closed
  rw [decode_eq payload'' (isAscii_append.mpr ⟨padded, ascii⟩), bytes_append, bytes_append, sign]
  cases first : finished? (body.toUTF8.data.toList.foldlM Group.next {}) with
  | some bytes =>
    rw [first] at open_
    cases read : Png.decode bytes <;> simp [read, Except.mapError] at open_
  | none =>
    cases second : finished? ((body.toUTF8.data.toList ++ [61]).foldlM Group.next {}) with
    | none =>
      rw [second] at closed
      cases closed
    | some bytes =>
      rw [second] at closed
      rw [finished?_padded first second]
      exact closed

/-- A character of ASCII is one byte. -/
theorem bytes_of_isAscii {text : String} (ascii : IsAscii text) :
    text.toUTF8.data.toList = text.toList.map fun c => c.val.toUInt8 := by
  have each : ∀ cs : List Char, (∀ c ∈ cs, c.toNat < 0x80) →
      cs.utf8Encode.data.toList = cs.map fun c => c.val.toUInt8 := by
    intro cs
    induction cs with
    | nil => exact fun _ => rfl
    | cons c cs ih =>
      intro ascii
      obtain ⟨here, later⟩ := List.forall_mem_cons.mp ascii
      have one : c.utf8Size = 1 := Char.utf8Size_eq_one_iff.mpr (UInt32.le_iff_toNat_le.mpr (Nat.le_of_lt_succ here))
      rw [List.utf8Encode_cons, ByteArray.data_append, Array.toList_append, ih later, List.utf8Encode_singleton,
        String.utf8EncodeChar_eq_singleton one, List.toList_data_toByteArray, List.map_cons, List.singleton_append]
  rw [← each _ ascii, String.utf8Encode_toList]
  rfl

/-- Characters that base64 passes over may stand anywhere in the encoded part. -/
theorem decode_skips {skipped : String} (payload : payload? uri = some body)
    (pass : ∀ c ∈ skipped.toList, IsSkipped c) (more : String) :
    decode (uri ++ skipped ++ more) = decode (uri ++ more) := by
  have plain : IsAscii skipped := fun c mem => (pass c mem).ascii
  have long := payload?_append (payload?_append payload skipped) more
  have short := payload?_append payload more
  have same : IsAscii (body ++ skipped ++ more) ↔ IsAscii (body ++ more) := by
    rw [isAscii_append, isAscii_append, isAscii_append, and_iff_left plain]
  -- the whole encoded part has to be ASCII before anything of it is read
  by_cases ascii : IsAscii (body ++ more)
  · have still : ∀ g : Group, skipped.toUTF8.data.toList.foldlM Group.next g = .ok g := by
      intro g
      rw [bytes_of_isAscii plain]
      refine foldlM_skipped (fun b mem => ?_) g
      obtain ⟨c, hc, rfl⟩ := List.mem_map.mp mem
      exact ⟨(pass c hc).padding, (pass c hc).outside⟩
    have passed : ∀ x : Except ByteArray Group,
        (x >>= fun g => skipped.toUTF8.data.toList.foldlM Group.next g) = x := by
      intro x
      cases x with
      | error out => rfl
      | ok g => exact still g
    rw [decode_eq long (same.mpr ascii), decode_eq short ascii, bytes_append, bytes_append, bytes_append,
      List.foldlM_append, List.foldlM_append, List.foldlM_append, passed]
  · rw [decode_of_foreign long (mt same.mp ascii), decode_of_foreign short ascii]

end DataUri

end VectorGraph
