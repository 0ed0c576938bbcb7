import Mathlib.Data.List.Infix
import VectorGraph.Text.Blank

/-!
Which ids a text refers to, and which it defines.

A text refers to `x` where it says `url(#x)`. It defines `x` where an attribute `id` has the value `x`; what
is an attribute is told by the quotes, since a quote that follows on an even number of quotes begins a
value.

Both are read from a text in one go. A proof that a text refers to known ids only goes through `scan`,
which reads a text from the left, keeps in mind how much of a reference has just been read, and stops at
the first thing that is out of order: a reference to an id that is not known, or, in a text that is to be
silent, an attribute whose name ends in `id`. What a scan goes through refers to known ids
(`mem_known_of_scan`), and defines nothing if it is silent (`Reading.silent`). Scans of two texts join to a scan
of both, which is what makes them useful.
-/
namespace VectorGraph.Markup

/-! ## What a text says -/

/-- What every reference begins with. -/
def opening : List Char := ['u', 'r', 'l', '(', '#']

/-- The ids that a text refers to. -/
def referencesIn : List Char → List String
  | [] => []
  | c :: cs =>
    let rest := (c :: cs).drop opening.length
    if opening.isPrefixOf (c :: cs) && rest.contains ')' then
      String.ofList (rest.takeWhile (· != ')')) :: referencesIn cs
    else referencesIn cs

def references (text : String) : List String := referencesIn text.toList

/-- A text as it is read for definitions. -/
structure Reading where
  inside : Bool := false
  /-- The characters since the last quote, last first. -/
  word : List Char := []
  /-- Whether the value that is being read is that of an attribute `id`. -/
  named : Bool := false
  found : List String := []

/-- Whether the characters before a quote, last first, name the attribute `id`. -/
def namesId : List Char → Bool
  | '=' :: 'd' :: 'i' :: c :: _ => isBlankChar c
  | _ => false

def Reading.next (r : Reading) (c : Char) : Reading :=
  if c = '"' then
    if r.inside then { found := if r.named then r.found ++ [String.ofList r.word.reverse] else r.found }
    else { r with inside := true, word := [], named := namesId r.word }
  else { r with word := c :: r.word }

/-- The ids that a text defines, in order. -/
def definitions (text : String) : List String := (text.toList.foldl Reading.next {}).found

/-! ## Scanning -/

/-- How much of a reference has been read. -/
inductive Hunt where
  /-- So many characters of `url(#`. -/
  | seeking (count : Nat)
  /-- The characters of the id so far, last first. -/
  | naming (id : List Char)
  deriving DecidableEq

/-- What ids are made of. -/
def isIdChar (c : Char) : Bool := c.isAlphanum || c == '_' || c == '-'

def Hunt.next (known : List String) : Hunt → Char → Option Hunt
  | .seeking k, c =>
    if opening[k]? = some c then some (if k = 4 then .naming [] else .seeking (k + 1))
    else some (.seeking (if c = 'u' then 1 else 0))
  | .naming id, c =>
    if c = ')' then (if String.ofList id.reverse ∈ known then some (.seeking 0) else none)
    else if isIdChar c then some (.naming (c :: id)) else none

/-- How many characters of `id=` stand before a place outside of values, if `c` is the last of them and
`k` stood before that. -/
def nextLevel (k : Nat) (c : Char) : Nat :=
  if c = 'i' then 1 else if c = 'd' ∧ k = 1 then 2 else if c = '=' ∧ k = 2 then 3 else 0

/-- A place in a text. -/
structure Scan where
  inside : Bool := false
  /-- How many characters of `id=` have just been read outside of values. -/
  level : Nat := 0
  hunt : Hunt := .seeking 0
  deriving DecidableEq

/-- What a text may say. -/
structure Rules where
  /-- The ids that it may refer to. -/
  known : List String
  /-- Whether it must not define any. -/
  silent : Bool

variable {rules : Rules} {s s' : Scan} {c : Char} {a b cs : List Char}

def Scan.next (rules : Rules) (s : Scan) (c : Char) : Option Scan :=
  (s.hunt.next rules.known c).bind fun hunt =>
    if c = '"' then some ⟨!s.inside, 0, hunt⟩
    else if s.inside then some ⟨true, 0, hunt⟩
    else if rules.silent = true ∧ nextLevel s.level c = 3 then none
    else some ⟨false, nextLevel s.level c, hunt⟩

/-- Reads a text from a place on. -/
def scan (rules : Rules) : Scan → List Char → Option Scan
  | s, [] => some s
  | s, c :: cs => (s.next rules c).bind fun s' => scan rules s' cs

/-- A text that keeps to the rules, and leaves nothing open. -/
def Sane (rules : Rules) (text : String) : Prop := scan rules {} text.toList = some {}

theorem scan_append (a : List Char) : ∀ s : Scan,
    scan rules s (a ++ b) = (scan rules s a).bind fun s' => scan rules s' b := by
  induction a with
  | nil => exact fun s => rfl
  | cons c cs ih =>
    intro s
    simp only [List.cons_append, scan]
    cases s.next rules c with
    | none => rfl
    | some s' => exact ih s'

/-- A scan of two texts goes through a place between them. -/
theorem scan_append_of (ha : scan rules s a = some s') : scan rules s (a ++ b) = scan rules s' b := by
  rw [scan_append, ha]
  rfl

theorem Sane.append {x y : String} (hx : Sane rules x) (hy : Sane rules y) : Sane rules (x ++ y) := by
  unfold Sane
  rw [String.toList_append, scan_append_of hx]
  exact hy

theorem sane_empty : Sane rules "" := rfl

/-- More ids may be known, and a text that has to be silent may also be read as one that need not. -/
theorem Scan.next_mono {rules' : Rules} (known : ∀ x ∈ rules.known, x ∈ rules'.known)
    (silent : rules'.silent = true → rules.silent = true) (h : s.next rules c = some s') :
    s.next rules' c = some s' := by
  unfold Scan.next at h ⊢
  obtain ⟨hunt, hh, h⟩ := Option.bind_eq_some_iff.mp h
  -- The hunt consults the known ids at a closing bracket only.
  have hunt' : s.hunt.next rules'.known c = some hunt := by
    unfold Hunt.next at hh ⊢
    cases hs : s.hunt with
    | seeking k =>
      rw [hs] at hh
      exact hh
    | naming id =>
      rw [hs] at hh
      dsimp only at hh ⊢
      by_cases hc : c = ')'
      · simp only [hc, if_true] at hh ⊢
        by_cases mem : String.ofList id.reverse ∈ rules.known
        · rw [if_pos mem] at hh
          rw [if_pos (known _ mem), hh]
        · rw [if_neg mem] at hh
          cases hh
      · simpa only [hc, if_false] using hh
  rw [hunt']
  simp only [Option.bind_some]
  by_cases quote : c = '"'
  · simpa only [quote, if_true] using h
  · simp only [quote, if_false] at h ⊢
    by_cases inside : s.inside = true
    · simpa only [inside, if_true] using h
    · simp only [inside, Bool.false_eq_true, if_false] at h ⊢
      by_cases strict : rules'.silent = true ∧ nextLevel s.level c = 3
      · rw [if_pos ⟨silent strict.1, strict.2⟩] at h
        cases h
      · rw [if_neg strict]
        by_cases strict' : rules.silent = true ∧ nextLevel s.level c = 3
        · rw [if_pos strict'] at h
          cases h
        · rwa [if_neg strict'] at h

theorem scan_mono {rules' : Rules} (known : ∀ x ∈ rules.known, x ∈ rules'.known)
    (silent : rules'.silent = true → rules.silent = true) (cs : List Char) :
    ∀ {s s' : Scan}, scan rules s cs = some s' → scan rules' s cs = some s' := by
  induction cs with
  | nil => exact fun h => h
  | cons c cs ih =>
    intro s s' h
    obtain ⟨t, ht, h⟩ := Option.bind_eq_some_iff.mp h
    unfold scan
    rw [Scan.next_mono known silent ht]
    exact ih h

theorem Sane.mono {rules' : Rules} {x : String} (h : Sane rules x)
    (known : ∀ y ∈ rules.known, y ∈ rules'.known)
    (silent : rules'.silent = true → rules.silent = true) : Sane rules' x :=
  scan_mono known silent _ h

/-! ## What a scan tells about references -/

/-- Reads a text for references only. -/
def follow (known : List String) : Hunt → List Char → Option Hunt
  | h, [] => some h
  | h, c :: cs => (h.next known c).bind fun h' => follow known h' cs

theorem Scan.next_hunt (h : s.next rules c = some s') : s.hunt.next rules.known c = some s'.hunt := by
  unfold Scan.next at h
  obtain ⟨hunt, hh, h⟩ := Option.bind_eq_some_iff.mp h
  rw [hh]
  split at h
  · rw [← Option.some.inj h]
  · split at h
    · rw [← Option.some.inj h]
    · split at h
      · cases h
      · rw [← Option.some.inj h]

theorem follow_of_scan (cs : List Char) : ∀ {s s' : Scan}, scan rules s cs = some s' →
    follow rules.known s.hunt cs = some s'.hunt := by
  induction cs with
  | nil =>
    intro s s' h
    rw [Option.some.inj h]
    rfl
  | cons c cs ih =>
    intro s s' h
    obtain ⟨t, ht, h⟩ := Option.bind_eq_some_iff.mp h
    unfold follow
    rw [Scan.next_hunt ht]
    exact ih h

theorem follow_append (known : List String) (a : List Char) : ∀ h : Hunt,
    follow known h (a ++ b) = (follow known h a).bind fun h' => follow known h' b := by
  induction a with
  | nil => exact fun h => rfl
  | cons c cs ih =>
    intro h
    simp only [List.cons_append, follow]
    cases h.next known c with
    | none => rfl
    | some h' => exact ih h'

/-- Wherever a reference begins, its id is read next. -/
theorem follow_opening {known : List String} {h h' : Hunt} (read : follow known h (opening ++ cs) = some h') :
    follow known (.naming []) cs = some h' := by
  rw [follow_append] at read
  obtain ⟨m, hm, read⟩ := Option.bind_eq_some_iff.mp read
  have opened : m = .naming [] := by
    cases h with
    | naming id =>
      -- the bracket is no part of an id
      simp [follow, opening, Hunt.next, isIdChar] at hm
    | seeking k =>
      rcases k with _ | _ | _ | _ | _ | k <;> simp [follow, opening, Hunt.next] at hm <;> exact hm.symm
  rw [← opened]
  exact read

/-- An id that is read to its end is known. -/
theorem mem_known_of_follow {known : List String} (cs : List Char) : ∀ {id : List Char} {h : Hunt},
    follow known (.naming id) cs = some h → ')' ∈ cs →
    String.ofList (id.reverse ++ cs.takeWhile (· != ')')) ∈ known := by
  induction cs with
  | nil => exact fun _ closed => absurd closed List.not_mem_nil
  | cons c cs ih =>
    intro id h read closed
    obtain ⟨m, hm, read⟩ := Option.bind_eq_some_iff.mp read
    unfold Hunt.next at hm
    dsimp only at hm
    by_cases hc : c = ')'
    · rw [if_pos hc] at hm
      split at hm
      · next mem => simpa [hc] using mem
      · cases hm
    · rw [if_neg hc] at hm
      split at hm
      · obtain rfl := Option.some.inj hm
        have rest : ')' ∈ cs := by simpa [Ne.symm hc] using closed
        have mem := ih read rest
        simpa [hc] using mem
      · cases hm

/-- Whatever a text refers to that was gone through is known. -/
theorem mem_known_of_scan (cs : List Char) : ∀ {s s' : Scan}, scan rules s cs = some s' →
    ∀ x ∈ referencesIn cs, x ∈ rules.known := by
  induction cs with
  | nil => exact fun _ x hx => absurd hx List.not_mem_nil
  | cons c cs ih =>
    intro s s' h x hx
    have read := follow_of_scan _ h
    obtain ⟨t, -, later⟩ := Option.bind_eq_some_iff.mp h
    unfold referencesIn at hx
    dsimp only at hx
    split at hx
    · next begins =>
      rw [Bool.and_eq_true, List.isPrefixOf_iff_prefix, List.contains_iff_mem] at begins
      obtain ⟨⟨rest, whole⟩, closed⟩ := begins
      rw [← whole, List.drop_left] at closed hx
      rw [← whole] at read
      rcases List.mem_cons.mp hx with rfl | hx
      · exact mem_known_of_follow rest (follow_opening read) closed
      · exact ih later x hx
    · exact ih later x hx

/-! ## What a silent scan tells about definitions -/

/-- How many characters of `id=` end a word, which is given last character first. -/
def levelOf : List Char → Nat
  | [] => 0
  | c :: word => nextLevel (levelOf word) c

theorem levelOf_of_namesId {word : List Char} (h : namesId word = true) : levelOf word = 3 := by
  unfold namesId at h
  split at h
  · rfl
  · cases h

/-- The reading of a text for definitions has come to the same place as a scan, and does not stand inside
an `id`. -/
structure Reading.At (r : Reading) (s : Scan) : Prop where
  inside : r.inside = s.inside
  level : s.inside = false → levelOf r.word = s.level
  open_ : s.level ≠ 3
  named : s.inside = true → r.named = false

theorem Reading.At.next {r : Reading} (h : r.At s) (silent : rules.silent = true)
    (read : s.next rules c = some s') : (r.next c).At s' ∧ (r.next c).found = r.found := by
  unfold Scan.next at read
  obtain ⟨hunt, -, read⟩ := Option.bind_eq_some_iff.mp read
  unfold Reading.next
  by_cases quote : c = '"'
  · rw [if_pos quote] at read
    obtain rfl := Option.some.inj read
    rw [if_pos quote, h.inside]
    cases inside : s.inside with
    | true =>
      rw [h.named inside]
      exact ⟨⟨rfl, fun _ => rfl, nofun, nofun⟩, rfl⟩
    | false =>
      -- In a silent text no value is that of an `id`: the scan would have stopped at the sign before it.
      have unnamed : namesId r.word = false := by
        by_contra named
        rw [Bool.not_eq_false] at named
        exact h.open_ ((h.level inside).symm.trans (levelOf_of_namesId named))
      exact ⟨⟨rfl, nofun, nofun, fun _ => unnamed⟩, rfl⟩
  · rw [if_neg quote] at read
    rw [if_neg quote]
    refine ⟨?_, rfl⟩
    cases inside : s.inside with
    | true =>
      rw [inside, if_pos rfl] at read
      obtain rfl := Option.some.inj read
      exact ⟨h.inside.trans inside, nofun, nofun, fun _ => h.named inside⟩
    | false =>
      rw [inside, if_neg Bool.false_ne_true] at read
      split at read
      · cases read
      · next strict =>
        obtain rfl := Option.some.inj read
        refine ⟨h.inside.trans inside, fun _ => ?_, fun full => strict ⟨silent, full⟩, nofun⟩
        exact congrArg (nextLevel · c) (h.level inside)

/-- A text that was gone through in silence defines nothing. -/
theorem Reading.At.read (silent : rules.silent = true) (cs : List Char) : ∀ {r : Reading} {s s' : Scan},
    r.At s → scan rules s cs = some s' →
    (cs.foldl Reading.next r).At s' ∧ (cs.foldl Reading.next r).found = r.found := by
  induction cs with
  | nil =>
    intro r s s' h read
    rw [← Option.some.inj read]
    exact ⟨h, rfl⟩
  | cons c cs ih =>
    intro r s s' h read
    obtain ⟨t, ht, read⟩ := Option.bind_eq_some_iff.mp read
    obtain ⟨h', found⟩ := h.next silent ht
    obtain ⟨h'', found'⟩ := ih h' read
    exact ⟨h'', found'.trans found⟩

/-- A reading that stands outside of values, behind nothing that begins like `id=`. -/
def Reading.Calm (r : Reading) : Prop := r.inside = false ∧ levelOf r.word = 0

/-- Wherever a text is put, what it defines is told by the text alone. -/
def Balanced (text : String) : Prop :=
  ∀ r : Reading, r.Calm → (text.toList.foldl Reading.next r).Calm ∧
    (text.toList.foldl Reading.next r).found = r.found ++ definitions text

theorem Balanced.append {x y : String} (hx : Balanced x) (hy : Balanced y) :
    Balanced (x ++ y) ∧ definitions (x ++ y) = definitions x ++ definitions y := by
  have calm : Reading.Calm {} := ⟨rfl, rfl⟩
  have both : definitions (x ++ y) = definitions x ++ definitions y := by
    obtain ⟨hx', found⟩ := hx {} calm
    obtain ⟨-, found'⟩ := hy _ hx'
    rw [definitions, String.toList_append, List.foldl_append, found', found]
    rfl
  refine ⟨fun r hr => ?_, both⟩
  obtain ⟨hx', found⟩ := hx r hr
  obtain ⟨hy', found'⟩ := hy _ hx'
  rw [String.toList_append, List.foldl_append, both, found', found, List.append_assoc]
  exact ⟨hy', rfl⟩

theorem balanced_empty : Balanced "" := fun r hr => ⟨hr, (List.append_nil r.found).symm⟩

/-- A text that is sane and silent is balanced, and defines nothing. -/
theorem Sane.balanced {x : String} (h : Sane rules x) (silent : rules.silent = true) :
    Balanced x ∧ definitions x = [] := by
  have reads : ∀ r : Reading, r.Calm → (x.toList.foldl Reading.next r).Calm ∧
      (x.toList.foldl Reading.next r).found = r.found := by
    intro r hr
    have start : r.At {} := ⟨hr.1, fun _ => hr.2, nofun, nofun⟩
    obtain ⟨stop, found⟩ := start.read silent x.toList h
    exact ⟨⟨stop.inside, stop.level rfl⟩, found⟩
  have none_ : definitions x = [] := (reads {} ⟨rfl, rfl⟩).2
  refine ⟨fun r hr => ?_, none_⟩
  rw [none_, List.append_nil]
  exact reads r hr

end VectorGraph.Markup
