import VectorGraph.Operator.Sources
import VectorGraph.Proofs.Params.Settled

/-!
The stops of a gradient.

Whatever list is given, its entries with a number as their offset are the stops, in the order of the offsets, with
offsets and opacities between zero and one (`readStops_sanitised`). Colours are compared with a pattern whose end may
also stand before a last line end (`isHexColor_iff`), so that a text that is no colour may be kept. This happens
exactly where a colour is followed by a line end (`sanitised_iff`).
-/
namespace VectorGraph.Operator

/-! ## Sorting by a key -/

section Sorting

variable {α : Type} {key : α → ℚ} {r : α → α → Bool} {l : List α}

theorem mergeSort_eq (same : ∀ a ∈ l, ∀ b ∈ l, r a b = decide (key a ≤ key b)) :
    l.mergeSort r = l.mergeSort fun a b => decide (key a ≤ key b) := by
  simpa using List.map_mergeSort (f := id) same

theorem key_trans (key : α → ℚ) (a b c : α) : decide (key a ≤ key b) = true → decide (key b ≤ key c) = true →
    decide (key a ≤ key c) = true := by
  simpa using fun hab hbc => le_trans hab hbc

theorem key_total (key : α → ℚ) (a b : α) : (decide (key a ≤ key b) || decide (key b ≤ key a)) = true := by
  simpa using le_total (key a) (key b)

theorem pairwise_mergeSort_key (same : ∀ a ∈ l, ∀ b ∈ l, r a b = decide (key a ≤ key b)) :
    (l.mergeSort r).Pairwise fun a b => key a ≤ key b := by
  rw [mergeSort_eq same]
  simpa using List.pairwise_mergeSort (key_trans key) (key_total key) l

/-- Entries that have one key stay in order. -/
theorem filter_mergeSort_key (same : ∀ a ∈ l, ∀ b ∈ l, r a b = decide (key a ≤ key b)) {p : α → Bool}
    (tie : ∀ a ∈ l, ∀ b ∈ l, p a = true → p b = true → key a = key b) : (l.mergeSort r).filter p = l.filter p := by
  have sorted : (l.filter p).Pairwise fun a b => decide (key a ≤ key b) = true :=
    List.pairwise_of_forall_mem_list fun a ha b hb => by
      rw [List.mem_filter] at ha hb
      exact decide_eq_true (tie a ha.1 b hb.1 ha.2 hb.2).le
  -- the entries of one key are sorted already, and a sorted sublist is kept as it is
  have kept : (l.filter p).Sublist (l.mergeSort r) := by
    rw [mergeSort_eq same]
    exact List.sublist_mergeSort (key_trans key) (key_total key) sorted List.filter_sublist
  have count : ((l.mergeSort r).filter p).length = (l.filter p).length :=
    ((List.mergeSort_perm l r).filter p).length_eq
  have sub : (l.filter p).Sublist ((l.mergeSort r).filter p) := by
    simpa using kept.filter p
  exact (sub.eq_of_length count.symm).symm

end Sorting

/-! ## Numbers between zero and one -/

theorem unitInterval_within (x : Float) : 0.0 ≤ unitInterval x ∧ unitInterval x ≤ 1.0 := by
  have bounds : FieldType.areBounds .real (some 0.0) (some 1.0) = true := by decide +kernel
  have within : FieldType.Within .real (some 0.0) (some 1.0) (unitInterval x) := FieldType.within_clamp bounds x
  exact ⟨within.1 _ rfl, within.2 _ rfl⟩

theorem unitInterval_finite (x : Float) : ∃ b, FloatView.of (unitInterval x) = .finite b := by
  obtain ⟨zero, viewZero⟩ := isFiniteDouble_iff.mp (show isFiniteDouble 0.0 = true by decide +kernel)
  obtain ⟨one, viewOne⟩ := isFiniteDouble_iff.mp (show isFiniteDouble 1.0 = true by decide +kernel)
  have within := unitInterval_within x
  exact FloatView.exists_finite_of_between viewZero viewOne within.1 within.2

/-! ## Colours -/

/-- Three or six hexadecimal digits. -/
def isHexNumber (digits : List Char) : Bool :=
  digits.all isHexDigit && (digits.length == 3 || digits.length == 6)

/-- Whether a text is `#` with three or six hexadecimal digits and nothing else. -/
def isPlainHexColor (s : String) : Bool :=
  match s.toList with
  | '#' :: digits => isHexNumber digits
  | _ => false

section Colors

variable {s t : String} {rest digits : List Char}

theorem isPlainHexColor_of_toList (text : s.toList = '#' :: rest) : isPlainHexColor s = isHexNumber rest := by
  simp only [isPlainHexColor, text]

theorem isHexColor_of_toList (text : s.toList = '#' :: rest) :
    isHexColor s = isHexNumber (if rest.getLast? = some '\n' then rest.dropLast else rest) := by
  simp only [isHexColor, text]
  rfl

theorem toList_of_isPlainHexColor (plain : isPlainHexColor s = true) :
    ∃ digits, s.toList = '#' :: digits ∧ isHexNumber digits = true := by
  unfold isPlainHexColor at plain
  split at plain
  · next digits text => exact ⟨digits, text, plain⟩
  · cases plain

theorem toList_of_isHexColor (accepted : isHexColor s = true) : ∃ rest, s.toList = '#' :: rest := by
  unfold isHexColor at accepted
  split at accepted
  · next rest text => exact ⟨rest, text⟩
  · cases accepted

theorem toList_lineEnd (text : t.toList = '#' :: digits) : (t ++ "\n").toList = '#' :: (digits ++ ['\n']) := by
  rw [String.toList_append, text]
  rfl

/-- No line end is a digit. -/
theorem getLast?_ne_of_isHexNumber (number : isHexNumber digits = true) : digits.getLast? ≠ some '\n' := by
  intro last
  rw [isHexNumber, Bool.and_eq_true] at number
  have digit := List.all_eq_true.mp number.1 '\n' (List.mem_of_getLast? last)
  exact absurd digit (by decide)

/-- The pattern matches a colour, and a colour with a line end behind it. -/
theorem isHexColor_iff :
    isHexColor s = true ↔ ∃ t, isPlainHexColor t = true ∧ (s = t ∨ s = t ++ "\n") := by
  constructor
  · intro accepted
    obtain ⟨rest, text⟩ := toList_of_isHexColor accepted
    rw [isHexColor_of_toList text] at accepted
    by_cases lineEnd : rest.getLast? = some '\n'
    · rw [if_pos lineEnd] at accepted
      have parts : rest.dropLast ++ ['\n'] = rest := List.dropLast_append_getLast? '\n' lineEnd
      refine ⟨String.ofList ('#' :: rest.dropLast), ?_, .inr ?_⟩
      · rwa [isPlainHexColor_of_toList String.toList_ofList]
      · rw [← String.toList_inj, String.toList_append, String.toList_ofList, text, ← parts]
        simp
    · rw [if_neg lineEnd] at accepted
      exact ⟨s, by rwa [isPlainHexColor_of_toList text], .inl rfl⟩
  · rintro ⟨t, plain, same⟩
    obtain ⟨digits, text, number⟩ := toList_of_isPlainHexColor plain
    rcases same with rfl | rfl
    · rw [isHexColor_of_toList text, if_neg (getLast?_ne_of_isHexNumber number)]
      exact number
    · rw [isHexColor_of_toList (toList_lineEnd text), if_pos List.getLast?_concat, List.dropLast_concat]
      exact number

end Colors

/-! ## Stops -/

/-- A number as a part of the whole. -/
def unit (a : Scalar) : Float := unitInterval (FieldType.asDouble a)

/-- The colour of an entry if it is a valid one, else black. -/
def colorOf (valid : String → Bool) (entry : Json) : String :=
  match entry.under "color" with
  | .text s => if valid s then s else "#000000"
  | _ => "#000000"

/-- The stop that an entry with a number as its offset stands for. -/
def stopOf (valid : String → Bool) (entry : Json) : Option Stop :=
  (entry.under "offset").scalar?.map fun offset =>
    ⟨unit offset, colorOf valid entry, ((entry.under "opacity").scalar?.map unit).getD 1.0⟩

/-- What the stops of a list have to be. -/
structure Sanitised (valid : String → Bool) (raw : List Json) (stops : List Stop) : Prop where
  /-- There is one stop for each entry with an offset. -/
  each : stops.Perm (raw.filterMap (stopOf valid))
  sorted : stops.Pairwise fun a b => a.offset ≤ b.offset
  /-- Stops at one offset are in the order of their entries. -/
  stable : ∀ x : Float, stops.filter (fun s => s.offset ≤ x ∧ x ≤ s.offset) =
    (raw.filterMap (stopOf valid)).filter (fun s => s.offset ≤ x ∧ x ≤ s.offset)
  offset : ∀ s ∈ stops, 0.0 ≤ s.offset ∧ s.offset ≤ 1.0
  opacity : ∀ s ∈ stops, 0.0 ≤ s.opacity ∧ s.opacity ≤ 1.0

section Entries

variable {raw : List Json} {entry value : Json} {valid : String → Bool} {s : Stop} {stops : List Stop}

theorem unitOf?_eq (held : value.isHeld = true) : unitOf? value = .ok (value.scalar?.map unit) := by
  cases value with
  | whole n =>
    obtain ⟨x, double⟩ := Option.isSome_iff_exists.mp held
    simp [unitOf?, Json.scalar?, Scalar.toFloat?, unit, FieldType.asDouble, double]
  | real x => rfl
  | _ => rfl

theorem readStop_eq (held : entry.isHeld = true) : readStop entry = .ok (stopOf isHexColor entry) := by
  have readOffset := unitOf?_eq (Json.isHeld_under held "offset")
  have readOpacity := unitOf?_eq (Json.isHeld_under held "opacity")
  unfold readStop
  change (unitOf? (entry.under "offset") >>= _) = _
  rw [readOffset, stopOf]
  cases (entry.under "offset").scalar? with
  | none => rfl
  | some offset =>
    change (unitOf? (entry.under "opacity") >>= _) = _
    rw [readOpacity]
    unfold colorOf Json.under
    rcases entry.get? "color" with _ | value
    · rfl
    · cases value <;> rfl

theorem readStops_eq (held : ∀ entry ∈ raw, entry.isHeld = true) :
    readStops raw = .ok ((raw.filterMap (stopOf isHexColor)).mergeSort fun a b => a.offset ≤ b.offset) := by
  unfold readStops
  rw [mapM_eq_ok _ fun entry there => readStop_eq (held entry there)]
  show Except.ok _ = Except.ok _
  rw [List.filterMap_map]
  rfl

theorem offset_of_stopOf (found : stopOf valid entry = some s) : ∃ x, s.offset = unitInterval x := by
  obtain ⟨a, -, rfl⟩ := Option.map_eq_some_iff.mp found
  exact ⟨FieldType.asDouble a, rfl⟩

theorem opacity_of_stopOf (found : stopOf valid entry = some s) : 0.0 ≤ s.opacity ∧ s.opacity ≤ 1.0 := by
  obtain ⟨a, -, rfl⟩ := Option.map_eq_some_iff.mp found
  cases (entry.under "opacity").scalar? with
  | none =>
    have whole : (0.0 : Float) ≤ 1.0 ∧ (1.0 : Float) ≤ 1.0 := by decide +kernel
    exact whole
  | some b => exact unitInterval_within _

theorem color_of_stopOf (found : stopOf valid entry = some s) : s.color = colorOf valid entry := by
  obtain ⟨a, -, rfl⟩ := Option.map_eq_some_iff.mp found
  rfl

/-- The value of an offset. -/
def Stop.key (s : Stop) : ℚ :=
  match FloatView.of s.offset with
  | .finite b => b.value
  | _ => 0

/-- A stop whose offset is a number. -/
def Stop.Placed (s : Stop) : Prop := ∃ b, FloatView.of s.offset = .finite b

theorem placed_of_mem (there : s ∈ raw.filterMap (stopOf valid)) : s.Placed := by
  obtain ⟨entry, -, found⟩ := List.mem_filterMap.mp there
  obtain ⟨x, offset⟩ := offset_of_stopOf found
  rw [Stop.Placed, offset]
  exact unitInterval_finite x

theorem le_iff_key_le {s t : Stop} (placed : s.Placed) (placed' : t.Placed) : s.offset ≤ t.offset ↔ s.key ≤ t.key := by
  obtain ⟨b, view⟩ := placed
  obtain ⟨b', view'⟩ := placed'
  simp only [Stop.key, view, view']
  exact FloatView.le_iff_value_le view view'

/-- Two stops at one offset have one key. -/
theorem key_eq_of_tie {s t : Stop} (placed : s.Placed) (placed' : t.Placed) {x : Float}
    (tie : s.offset ≤ x ∧ x ≤ s.offset) (tie' : t.offset ≤ x ∧ x ≤ t.offset) : s.key = t.key := by
  obtain ⟨b, view⟩ := placed
  obtain ⟨b', view'⟩ := placed'
  obtain ⟨c, viewX⟩ := FloatView.exists_finite_of_between view view tie.1 tie.2
  rw [FloatView.le_iff_value_le view viewX, FloatView.le_iff_value_le viewX view] at tie
  rw [FloatView.le_iff_value_le view' viewX, FloatView.le_iff_value_le viewX view'] at tie'
  simp only [Stop.key, view, view']
  exact (le_antisymm tie.1 tie.2).trans (le_antisymm tie'.2 tie'.1)

/-- The stops that are read, in whatever order they are given, are as they have to be. -/
theorem sanitised_mergeSort (raw : List Json) (valid : String → Bool) :
    Sanitised valid raw ((raw.filterMap (stopOf valid)).mergeSort fun a b => a.offset ≤ b.offset) := by
  have placed : ∀ s ∈ raw.filterMap (stopOf valid), s.Placed := fun s => placed_of_mem
  have same : ∀ a ∈ raw.filterMap (stopOf valid), ∀ b ∈ raw.filterMap (stopOf valid),
      decide (a.offset ≤ b.offset) = decide (a.key ≤ b.key) := fun a ha b hb =>
    decide_eq_decide.mpr (le_iff_key_le (placed a ha) (placed b hb))
  have each := List.mergeSort_perm (raw.filterMap (stopOf valid)) fun a b => decide (a.offset ≤ b.offset)
  have found : ∀ s ∈ (raw.filterMap (stopOf valid)).mergeSort (fun a b => a.offset ≤ b.offset),
      ∃ entry ∈ raw, stopOf valid entry = some s := fun s there => List.mem_filterMap.mp (each.mem_iff.mp there)
  refine ⟨each, ?_, fun x => ?_, fun s there => ?_, fun s there => ?_⟩
  · refine (pairwise_mergeSort_key same).imp_of_mem fun ha hb ordered => ?_
    exact (le_iff_key_le (placed _ (each.mem_iff.mp ha)) (placed _ (each.mem_iff.mp hb))).mpr ordered
  · refine filter_mergeSort_key same fun a ha b hb tieA tieB => ?_
    exact key_eq_of_tie (placed a ha) (placed b hb) (of_decide_eq_true tieA) (of_decide_eq_true tieB)
  · obtain ⟨entry, -, stop⟩ := found s there
    obtain ⟨x, offset⟩ := offset_of_stopOf stop
    rw [offset]
    exact unitInterval_within x
  · obtain ⟨entry, -, stop⟩ := found s there
    exact opacity_of_stopOf stop

/-- What is read from a list of entries. -/
theorem readStops_sanitised (held : ∀ entry ∈ raw, entry.isHeld = true) :
    ∃ stops, readStops raw = .ok stops ∧ Sanitised isHexColor raw stops :=
  ⟨_, readStops_eq held, sanitised_mergeSort raw isHexColor⟩

/-! ## Where a line end is kept -/

theorem isPlainHexColor_lineEnd {t : String} (plain : isPlainHexColor t = true) :
    isPlainHexColor (t ++ "\n") = false := by
  obtain ⟨digits, text, number⟩ := toList_of_isPlainHexColor plain
  have noDigit : isHexDigit '\n' = false := by decide
  simp [isPlainHexColor_of_toList (toList_lineEnd text), isHexNumber, noDigit]

theorem isPlainHexColor_colorOf (entry : Json) : isPlainHexColor (colorOf isPlainHexColor entry) = true := by
  have black : isPlainHexColor "#000000" = true := by decide +kernel
  unfold colorOf
  split
  · next s _ =>
    by_cases plain : isPlainHexColor s = true
    · rwa [if_pos plain]
    · rwa [if_neg plain]
  · exact black

/-- Whether the colour of an entry is one with a line end behind it. -/
def EndsLine (entry : Json) : Prop := ∃ t, isPlainHexColor t = true ∧ entry.under "color" = .text (t ++ "\n")

theorem colorOf_eq_of_not_endsLine (clean : ¬ EndsLine entry) :
    colorOf isHexColor entry = colorOf isPlainHexColor entry := by
  unfold colorOf
  cases color : entry.under "color" with
  | text s =>
    have same : isHexColor s = isPlainHexColor s := by
      rw [Bool.eq_iff_iff, isHexColor_iff]
      constructor
      · rintro ⟨t, plain, rfl | rfl⟩
        · exact plain
        · exact absurd ⟨t, plain, color⟩ clean
      · exact fun plain => ⟨s, plain, .inl rfl⟩
    simp only [same]
  | _ => rfl

/-- The colours are those of the entries, or black, if and only if no entry with an offset has a colour with a line end
behind it. -/
theorem sanitised_iff (held : ∀ entry ∈ raw, entry.isHeld = true) (read : readStops raw = .ok stops) :
    Sanitised isPlainHexColor raw stops ↔
      ∀ entry ∈ raw, (entry.under "offset").scalar?.isSome = true → ¬ EndsLine entry := by
  rw [readStops_eq held] at read
  obtain rfl := Except.ok.inj read
  constructor
  · rintro plain entry there given ⟨t, color, text⟩
    obtain ⟨offset, given⟩ := Option.isSome_iff_exists.mp given
    have accepted : isHexColor (t ++ "\n") = true := isHexColor_iff.mpr ⟨t, color, .inr rfl⟩
    have kept : colorOf isHexColor entry = t ++ "\n" := by simp only [colorOf, text, accepted, if_true]
    -- the stop of this entry is among those read, where all colours would have to be plain
    obtain ⟨s, stop⟩ : ∃ s, stopOf isHexColor entry = some s := ⟨_, congrArg (Option.map _) given⟩
    have member := (List.mergeSort_perm _ fun a b : Stop => decide (a.offset ≤ b.offset)).mem_iff.mpr
      (List.mem_filterMap.mpr ⟨entry, there, stop⟩)
    obtain ⟨entry', -, stop'⟩ := List.mem_filterMap.mp (plain.each.mem_iff.mp member)
    have isPlain := isPlainHexColor_colorOf entry'
    rw [← color_of_stopOf stop', color_of_stopOf stop, kept, isPlainHexColor_lineEnd color] at isPlain
    cases isPlain
  · intro clean
    have same : raw.filterMap (stopOf isHexColor) = raw.filterMap (stopOf isPlainHexColor) :=
      List.filterMap_congr fun entry there => by
        cases given : (entry.under "offset").scalar? with
        | none => simp [stopOf, given]
        | some offset =>
          have color := colorOf_eq_of_not_endsLine (clean entry there (by rw [given]; rfl))
          simp [stopOf, given, color]
    rw [same]
    exact sanitised_mergeSort raw isPlainHexColor

end Entries

/-- An entry whose colour has a line end behind it. -/
def lineEndEntry : Json := .object [("offset", .whole 0), ("color", .text "#fff\n")]

/-- A colour with a line end behind it is kept. -/
theorem readStops_keeps_lineEnd : (∀ entry ∈ [lineEndEntry], entry.isHeld = true) ∧
    readStops [lineEndEntry] = .ok [⟨0.0, "#fff\n", 1.0⟩] ∧
    ¬ ∃ stops, readStops [lineEndEntry] = .ok stops ∧ Sanitised isPlainHexColor [lineEndEntry] stops := by
  have held : ∀ entry ∈ [lineEndEntry], entry.isHeld = true := by decide +kernel
  refine ⟨held, ?_, ?_⟩
  · have offset : unit (.whole 0) = 0.0 := by decide +kernel
    have color : colorOf isHexColor lineEndEntry = "#fff\n" := by decide +kernel
    have stop : stopOf isHexColor lineEndEntry = some ⟨unit (.whole 0), colorOf isHexColor lineEndEntry, 1.0⟩ := rfl
    rw [offset, color] at stop
    rw [readStops_eq held, List.filterMap_cons_some stop, List.filterMap_nil, List.mergeSort_singleton]
  · rintro ⟨stops, read, sanitised⟩
    have color : EndsLine lineEndEntry := ⟨"#fff", by decide +kernel, by decide +kernel⟩
    exact (sanitised_iff held read).mp sanitised lineEndEntry List.mem_cons_self rfl color

end VectorGraph.Operator
