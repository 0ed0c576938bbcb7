import Std.Data.HashMap.Lemmas
import VectorGraph.Contour.Trace
import VectorGraph.Picture.DataUri
import VectorGraph.Proofs.Number.Plain

/-!
Texts that are made of pixels.

A traced contour goes through points whose keys are plain, and writes nothing but these. A picture in a
data URI is written in the letters of base64, among which are equals signs, but no quotes and no number
signs.
-/
namespace VectorGraph

open Markup

/-! ## Traced contours -/

namespace SegmentMap

variable {m : SegmentMap String} {P : String → Prop}

/-- Every point of a map, be it the start or the end of a segment. -/
structure Holds (P : String → Prop) (m : SegmentMap String) : Prop where
  starts : ∀ s ∈ m.recent, P s
  ends : ∀ s t, m.end? s = some t → P t

theorem Holds.insert {start stop : String} (h : m.Holds P) (hs : P start) (ht : P stop) :
    (m.insert start stop).Holds P := by
  refine ⟨fun s mem => ?_, fun s t ends => ?_⟩
  · unfold SegmentMap.insert at mem
    dsimp only at mem
    split at mem
    · exact h.starts s mem
    · rcases List.mem_cons.mp mem with rfl | mem
      · exact hs
      · exact h.starts s mem
  · unfold SegmentMap.insert SegmentMap.end? at ends
    rw [Std.HashMap.getElem?_insert] at ends
    split at ends
    · exact Option.some.inj ends ▸ ht
    · exact h.ends s t ends

theorem holds_ofList {segments : List (String × String)} (h : ∀ s ∈ segments, P s.1 ∧ P s.2) :
    (SegmentMap.ofList segments).Holds P := by
  have fold : ∀ (segments : List (String × String)) (m : SegmentMap String), m.Holds P →
      (∀ s ∈ segments, P s.1 ∧ P s.2) →
      (segments.foldl (fun m s => m.insert s.1 s.2) m).Holds P := by
    intro segments
    induction segments with
    | nil => exact fun _ hm _ => hm
    | cons s rest ih =>
      intro m hm h
      obtain ⟨hs, ht⟩ := h s List.mem_cons_self
      exact ih _ (hm.insert hs ht) fun r hr => h r (List.mem_cons_of_mem s hr)
  refine fold segments .empty ⟨fun s mem => ?_, fun s t ends => ?_⟩ h
  · cases mem
  · simp [SegmentMap.empty, SegmentMap.end?] at ends

end SegmentMap

namespace Contour

variable {P : String → Prop} {next : String → Option String}

/-- Every point of a subpath. -/
def Subpath.Holds (P : String → Prop) (s : Subpath String) : Prop := P s.start ∧ ∀ p ∈ s.rest, P p

/-- A walk draws the points that the segments lead to. -/
theorem follow_holds {start : String} (hs : P start) (leads : ∀ s t, next s = some t → P t)
    (steps : Nat) : ∀ (current : Option String) (drawn : Std.HashSet String) (rest : List String),
    (∀ p, current = some p → P p) → (∀ p ∈ rest, P p) →
    (follow next start steps current drawn rest).1.Holds P := by
  have reversed : ∀ {rest : List String}, (∀ p ∈ rest, P p) → ∀ p ∈ rest.reverse, P p :=
    fun h p mem => h p (List.mem_reverse.mp mem)
  induction steps with
  | zero => exact fun _ _ _ _ hr => ⟨hs, reversed hr⟩
  | succ steps ih =>
    intro current drawn rest hc hr
    cases current with
    | none => exact ⟨hs, reversed hr⟩
    | some current =>
      have hcurrent := hc current rfl
      have both : ∀ p ∈ current :: rest, P p := List.forall_mem_cons.mpr ⟨hcurrent, hr⟩
      unfold follow
      split
      · exact ⟨hs, reversed both⟩
      · split
        · exact ⟨hs, reversed both⟩
        · exact ih (next current) _ _ (fun p hp => leads current p hp) both

theorem subpathsFrom_holds {maxSteps : Nat} (leads : ∀ s t, next s = some t → P t)
    (starts : List String) : ∀ drawn : Std.HashSet String, (∀ s ∈ starts, P s) →
    ∀ s ∈ subpathsFrom next maxSteps starts drawn, s.Holds P := by
  induction starts with
  | nil =>
    intro drawn _ s mem
    cases mem
  | cons start rest ih =>
    intro drawn h s mem
    have later : ∀ r ∈ rest, P r := fun r hr => h r (List.mem_cons_of_mem start hr)
    have first := h start List.mem_cons_self
    unfold subpathsFrom at mem
    split at mem
    · exact ih drawn later s mem
    · rcases List.mem_cons.mp mem with rfl | mem
      · exact follow_holds first leads _ _ _ _ (leads start) fun p hp => by cases hp
      · exact ih _ later s mem

theorem plain_splitPoint {p s : String} (hp : Plain p) (h : splitPoint p = .ok s) : Plain s := by
  unfold splitPoint at h
  dsimp only at h
  split at h
  · rw [← Except.ok.inj h]
    refine plain_ofList fun c mem => ?_
    obtain ⟨d, hd, rfl⟩ := List.mem_map.mp mem
    split
    · decide
    · exact hp d hd
  · cases h

theorem plain_commands {s : Subpath String} {parts : List String} (hs : s.Holds Plain)
    (h : s.commands = .ok parts) : ∀ p ∈ parts, Plain p := by
  obtain ⟨first, hfirst, h⟩ := bind_eq_ok.mp h
  obtain ⟨rest, hrest, h⟩ := bind_eq_ok.mp h
  obtain rfl := Except.ok.inj h
  have last : ∀ p ∈ (if s.closed then ["Z"] else []), Plain p := by
    intro p mem
    split at mem
    · rw [List.mem_singleton.mp mem]
      exact plain_of_all (by decide)
    · cases mem
  intro p mem
  rw [List.cons_append, List.mem_cons, List.mem_append] at mem
  rcases mem with rfl | mem | mem
  · exact plain_append (plain_of_all (by decide)) (plain_splitPoint hs.1 hfirst)
  · obtain ⟨q, hq, line⟩ := exists_of_mem_mapM hrest p mem
    obtain ⟨text, htext, line⟩ := bind_eq_ok.mp line
    obtain rfl := Except.ok.inj line
    exact plain_append (plain_of_all (by decide)) (plain_splitPoint (hs.2 q hq) htext)
  · exact last p mem

theorem plain_stitchText {m : SegmentMap String} {maxSteps : Nat} {s : String} (hm : m.Holds Plain)
    (h : stitchText m maxSteps = .ok s) : Plain s := by
  obtain ⟨parts, hparts, h⟩ := bind_eq_ok.mp h
  obtain rfl := Except.ok.inj h
  refine plain_intercalate (plain_of_all (by decide)) fun p mem => ?_
  obtain ⟨part, hpart, mem⟩ := List.mem_flatten.mp mem
  obtain ⟨subpath, hsub, commands⟩ := exists_of_mem_mapM hparts part hpart
  refine plain_commands (subpathsFrom_holds (fun a b leads => ?_) _ _ (fun a ha => ?_) subpath hsub) commands p mem
  · exact hm.ends a b (Option.filter_eq_some_iff.mp leads).1
  · exact hm.starts a (List.mem_reverse.mp ha)

theorem plain_pointKey (scale : Scalar) (p : HalfPoint) : Plain (pointKey scale p) :=
  plain_append (plain_append (plain_fixedText _ _) (plain_of_all (by decide))) (plain_fixedText _ _)

theorem plain_traceText {p : Picture} {resolution : Int} {threshold : Float} {invert : Bool} {s : String}
    (h : traceText p resolution threshold invert = .ok s) : Plain s := by
  unfold traceText at h
  dsimp only at h
  split at h
  · cases h
  · split at h
    · cases h
    · obtain ⟨m, hm, h⟩ := bind_eq_ok.mp h
      refine plain_stitchText ?_ h
      unfold march at hm
      split at hm
      · obtain rfl := Except.ok.inj hm
        refine SegmentMap.holds_ofList fun segment mem => ?_
        obtain ⟨ends, -, rfl⟩ := List.mem_map.mp mem
        exact ⟨plain_pointKey _ _, plain_pointKey _ _⟩
      · cases hm

end Contour

/-! ## Pictures in data URIs -/

namespace Base64

/-- Bytes that are neither a quote nor a number sign. -/
def Harmless (b : UInt8) : Prop := b ≠ 34 ∧ b ≠ 35

theorem harmless_letter (n : UInt8) : Harmless (letter n) := by
  unfold Harmless letter
  grind

theorem harmless_push {out : ByteArray} {b : UInt8} (h : ∀ c ∈ out.data, Harmless c) (hb : Harmless b) :
    ∀ c ∈ (out.push b).data, Harmless c := by
  intro c mem
  rw [ByteArray.data_push, Array.mem_push] at mem
  rcases mem with mem | rfl
  · exact h c mem
  · exact hb

theorem harmless_encodeFrom (bytes : ByteArray) (groups : Nat) : ∀ (i : Nat) (out : ByteArray),
    (∀ c ∈ out.data, Harmless c) → ∀ c ∈ (encodeFrom bytes groups i out).data, Harmless c := by
  have padded : ∀ (full : Prop) [Decidable full] (n : UInt8), Harmless (if full then letter n else 61) := by
    intro full _ n
    split
    · exact harmless_letter n
    · exact ⟨by decide, by decide⟩
  induction groups with
  | zero => exact fun _ _ h => h
  | succ groups ih =>
    intro i out h
    unfold encodeFrom
    exact ih _ _ (harmless_push (harmless_push (harmless_push (harmless_push h (harmless_letter _))
      (harmless_letter _)) (padded _ _)) (padded _ _))

theorem harmless_encode (bytes : ByteArray) : ∀ c ∈ (encode bytes).data, Harmless c := by
  refine harmless_encodeFrom bytes _ 0 _ fun c mem => ?_
  exact absurd mem (Array.not_mem_empty c)

end Base64

/-- An ASCII character of a text is a byte of it. -/
theorem mem_data_of_mem_toList {s : String} {c : Char} {b : UInt8}
    (byte : [c].utf8Encode.data = #[b]) (mem : c ∈ s.toList) : b ∈ s.toByteArray.data := by
  obtain ⟨before, after, split⟩ := List.append_of_mem mem
  rw [← String.utf8Encode_toList, split, List.utf8Encode_append, List.utf8Encode_cons, ByteArray.data_append,
    ByteArray.data_append, byte]
  simp

theorem fit_encode (p : Picture) (known : List String) : Fit known (DataUri.encode p) := by
  have letters : ∀ c ∈ ((String.fromUTF8? (Base64.encode (Png.encode p))).getD "").toList,
      c ≠ '"' ∧ c ≠ '#' := by
    intro c mem
    cases read : String.fromUTF8? (Base64.encode (Png.encode p)) with
    | none =>
      rw [read] at mem
      simp at mem
    | some s =>
      rw [read, Option.getD_some] at mem
      have bytes : s.toByteArray = Base64.encode (Png.encode p) := by
        unfold String.fromUTF8? at read
        split at read
        · exact Option.some.inj read ▸ rfl
        · cases read
      have harmless := Base64.harmless_encode (Png.encode p)
      rw [← bytes] at harmless
      constructor
      · rintro rfl
        exact (harmless 34 (mem_data_of_mem_toList (by decide) mem)).1 rfl
      · rintro rfl
        exact (harmless 35 (mem_data_of_mem_toList (by decide) mem)).2 rfl
  unfold DataUri.encode
  refine fit_of_not_mem (fun mem => ?_) fun mem => ?_ <;> rw [String.toList_append, List.mem_append] at mem
  · rcases mem with mem | mem
    · exact absurd mem (by decide)
    · exact (letters _ mem).1 rfl
  · rcases mem with mem | mem
    · exact absurd mem (by decide)
    · exact (letters _ mem).2 rfl

end VectorGraph
