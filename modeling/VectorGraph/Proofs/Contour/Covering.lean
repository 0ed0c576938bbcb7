import VectorGraph.Proofs.Contour.Outline

/-!
What is drawn of any map of segments.

The segments of a map need not come from a grid: an end may be no start, several segments may have the same end, and a
walk may run into a subpath drawn before, or into itself. All the same, every segment is drawn once if the bound on
the steps is no less than the number of segments, a subpath is closed if and only if its walk comes back to its
start, and each subpath begins at the first starting point that no subpath before it has drawn
(`stitching_covers_map`).
-/
namespace VectorGraph.Contour

section Walks

variable {κ : Type} [BEq κ] [LawfulBEq κ] [Hashable κ]
  {next : κ → Option κ} {start last p : κ} {drawn drawn' : Std.HashSet κ} {more : List κ} {closed : Bool}

/-- The points of a subpath in order. -/
def Subpath.points (s : Subpath κ) : List κ := s.start :: s.rest

/-- A trail from a point that is drawn adds its own points to those drawn, and no others. -/
theorem Trail.mem_drawn (h : Trail next start drawn last more closed drawn') :
    start ∈ drawn → (p ∈ drawn' ↔ p ∈ drawn ∨ p ∈ more) := by
  induction h with
  | ends => intro _; simp
  | closes =>
    intro begun
    rw [List.mem_singleton]
    exact ⟨.inl, fun h => h.elim id fun same => same ▸ begun⟩
  | meets leads off old =>
    intro _
    rw [List.mem_singleton]
    exact ⟨.inl, fun h => h.elim id fun same => same ▸ old⟩
  | @goes drawn drawn' last q more closed leads off new later ih =>
    intro begun
    rw [ih (Std.HashSet.mem_insert.mpr (.inr begun)), Std.HashSet.mem_insert, beq_iff_eq, List.mem_cons, or_assoc,
      or_left_comm, eq_comm]

omit [LawfulBEq κ] in
/-- A trail that closes ends at its start. -/
theorem Trail.getLast?_of_closed (h : Trail next start drawn last more closed drawn') :
    closed = true → more.getLast? = some start := by
  induction h with
  | ends | meets => exact nofun
  | closes => exact fun _ => rfl
  | goes _ _ _ _ ih =>
    intro round
    rw [List.getLast?_cons, ih round, Option.getD_some]

omit [LawfulBEq κ] in
/-- A trail that comes to its start closes there. -/
theorem Trail.closed_of_mem (h : Trail next start drawn last more closed drawn') :
    start ∈ more → closed = true := by
  induction h with
  | ends => exact fun back => absurd back List.not_mem_nil
  | closes => exact fun _ => rfl
  | meets _ off => exact fun back => absurd (List.mem_singleton.mp back).symm off
  | goes _ off _ _ ih => exact fun back => ih ((List.mem_cons.mp back).resolve_left (Ne.symm off))

/-! ## All subpaths -/

variable {maxSteps : Nat} {points : List κ}

/-- Every subpath is a trail from a point that was not drawn before. -/
theorem exists_trail_of_mem (known : ∀ p, next p ≠ none → p ∈ points) (enough : points.length ≤ maxSteps)
    (starts : List κ) : ∀ drawn : Std.HashSet κ, (∀ p ∈ starts, next p ≠ none) →
    ∀ s ∈ subpathsFrom next maxSteps starts drawn,
      ∃ before drawn' : Std.HashSet κ, Trail next s.start (before.insert s.start) s.start s.rest s.closed drawn' := by
  induction starts with
  | nil => exact fun drawn _ s mem => nomatch mem
  | cons start rest ih =>
    intro drawn live
    obtain ⟨leads, later⟩ := List.forall_mem_cons.mp live
    by_cases old : start ∈ drawn
    · rw [subpathsFrom_cons_of_mem old]
      exact ih drawn later
    · obtain ⟨more, closed, drawn', trail, -, eq⟩ := subpathsFrom_cons rest known enough (known start leads) old
      rw [eq]
      exact List.forall_mem_cons.mpr ⟨⟨drawn, drawn', trail⟩, ih drawn' later⟩

/-- Each subpath begins at the first of the given points that is not drawn yet, neither to begin with nor by a subpath
before it. -/
theorem subpathsFrom_start [DecidableEq κ] (known : ∀ p, next p ≠ none → p ∈ points)
    (enough : points.length ≤ maxSteps) (starts : List κ) : ∀ (drawn : Std.HashSet κ) {before after : List (Subpath κ)}
    {s : Subpath κ}, (∀ p ∈ starts, next p ≠ none) →
    subpathsFrom next maxSteps starts drawn = before ++ s :: after →
    starts.find? (fun p => p ∉ drawn ∧ p ∉ before.flatMap Subpath.points) = some s.start := by
  induction starts with
  | nil => exact fun drawn before after s _ split => absurd split (by simp [subpathsFrom])
  | cons start rest ih =>
    intro drawn before after s live split
    obtain ⟨leads, later⟩ := List.forall_mem_cons.mp live
    by_cases old : start ∈ drawn
    · rw [subpathsFrom_cons_of_mem old] at split
      rw [List.find?_cons_of_neg (by simp [old])]
      exact ih drawn later split
    · obtain ⟨more, closed, drawn', trail, -, eq⟩ := subpathsFrom_cons rest known enough (known start leads) old
      rw [eq] at split
      cases before with
      | nil =>
        obtain ⟨rfl, -⟩ := List.cons.inj split
        exact List.find?_cons_of_pos (by simp [old])
      | cons first before =>
        obtain ⟨rfl, tail⟩ := List.cons.inj split
        rw [List.find?_cons_of_neg (by simp [Subpath.points]), ← ih drawn' later tail]
        -- what the first subpath draws is its own points, whether they count as drawn or as points of a subpath before
        refine congrArg (rest.find? ·) (funext fun p => decide_eq_decide.mpr ?_)
        rw [trail.mem_drawn Std.HashSet.mem_insert_self, Std.HashSet.mem_insert, beq_iff_eq, List.flatMap_cons,
          List.mem_append, Subpath.points, List.mem_cons, eq_comm (a := start)]
        tauto

end Walks

/-! ## Maps of keys -/

/-- The coordinates of a key with a blank between them. -/
def spaced (key : String) : String := String.ofList (key.toList.map fun c => if c == ',' then ' ' else c)

/-- How a subpath through keys is written. -/
def Subpath.tokens (s : Subpath String) : List String :=
  ("M " ++ spaced s.start) :: s.rest.map ("L " ++ spaced ·) ++ if s.closed then ["Z"] else []

theorem IsKey.splitPoint_eq {key : String} (h : IsKey key) : splitPoint key = .ok (spaced key) := if_pos h

/-- The commands of a subpath through keys are its tokens. -/
theorem Subpath.Holds.commands_eq {s : Subpath String} (h : s.Holds IsKey) : s.commands = .ok s.tokens := by
  have lines : s.rest.mapM (fun p => do return "L " ++ (← splitPoint p)) =
      Except.ok (ε := Failure) (s.rest.map ("L " ++ spaced ·)) :=
    mapM_eq_ok s.rest fun p hp => by rw [(h.2 p hp).splitPoint_eq]; rfl
  rw [Subpath.commands, h.1.splitPoint_eq]
  change Except.bind (s.rest.mapM _) _ = _
  rw [lines]
  rfl

/-- The path description of a map of keys consists of the tokens of its subpaths. -/
theorem stitchText_eq {m : SegmentMap String} (keys : m.Holds IsKey) (maxSteps : Nat) :
    stitchText m maxSteps = .ok (" ".intercalate ((stitch m maxSteps).flatMap Subpath.tokens)) := by
  obtain ⟨commands, each, text⟩ := stitchText_ok keys maxSteps
  have holds : ∀ s ∈ stitch m maxSteps, s.Holds IsKey :=
    subpathsFrom_holds keys.ends m.starts ∅ fun p hp => keys.starts p (List.mem_reverse.mp hp)
  have tokens := mapM_eq_ok _ fun s hs => (holds s hs).commands_eq
  rw [text, List.flatMap, Except.ok.inj (each.symm.trans tokens)]

/-- A subpath is written with a `Z` at its end if and only if it is closed. -/
theorem Subpath.getLast?_tokens (s : Subpath String) : s.tokens.getLast? = some "Z" ↔ s.closed = true := by
  have other : ∀ t ∈ ("M " ++ spaced s.start) :: s.rest.map ("L " ++ spaced ·), t ≠ "Z" := by
    have led : ∀ (c : Char) (key : String), c ≠ 'Z' → String.ofList [c, ' '] ++ key ≠ "Z" := by
      intro c key off same
      have texts := congrArg String.toList same
      rw [String.toList_append, String.toList_ofList] at texts
      exact off (List.cons.inj texts).1
    refine List.forall_mem_cons.mpr ⟨led 'M' _ (by decide), fun t mem => ?_⟩
    obtain ⟨key, -, rfl⟩ := List.mem_map.mp mem
    exact led 'L' _ (by decide)
  unfold Subpath.tokens
  cases s.closed with
  | true =>
    rw [if_pos rfl, List.getLast?_append_of_ne_nil _ (List.cons_ne_nil _ _)]
    exact iff_of_true rfl rfl
  | false =>
    rw [if_neg Bool.false_ne_true, List.append_nil]
    exact ⟨fun last => absurd rfl (other "Z" (List.mem_of_getLast? last)), nofun⟩

/-- A map of keys is drawn completely, whatever its ends are. If the bound on the steps is no less than the number of
entries, the path description can be written, the edges between consecutive points of the subpaths are the entries,
each once, a subpath ends with a `Z` if and only if its walk comes back to its first point, which then is its last one,
and each subpath begins at the first key, in the order of the entries, that is no point of a subpath before it. -/
theorem stitching_covers_map {entries : List (String × String)} {maxSteps : Nat}
    (distinct : (entries.map Prod.fst).Nodup) (keys : ∀ e ∈ entries, IsKey e.1 ∧ IsKey e.2)
    (enough : entries.length ≤ maxSteps) :
    stitchText (.ofList entries) maxSteps =
      .ok (" ".intercalate ((stitch (.ofList entries) maxSteps).flatMap Subpath.tokens)) ∧
    ((stitch (.ofList entries) maxSteps).flatMap Subpath.edges).Perm entries ∧
    (∀ s ∈ stitch (.ofList entries) maxSteps, (s.tokens.getLast? = some "Z" ↔ s.start ∈ s.rest) ∧
      (s.start ∈ s.rest → s.rest.getLast? = some s.start)) ∧
    ∀ before s after, stitch (.ofList entries) maxSteps = before ++ s :: after →
      (entries.map Prod.fst).find? (fun key => key ∉ before.flatMap Subpath.points) = some s.start := by
  have neat : (SegmentMap.ofList entries).Neat := SegmentMap.neat_ofList entries
  have all : (SegmentMap.ofList entries).toList = entries := SegmentMap.toList_ofList distinct
  have starts : (SegmentMap.ofList entries).starts = entries.map Prod.fst := by
    rw [← neat.map_fst_toList, all]
  have bound : (SegmentMap.ofList entries).starts.length ≤ maxSteps := by rwa [starts, List.length_map]
  have known : ∀ p, (SegmentMap.ofList entries).end? p ≠ none ↔ p ∈ (SegmentMap.ofList entries).starts :=
    fun p => (List.mem_reverse.trans (neat.starts p)).symm
  refine ⟨stitchText_eq (SegmentMap.holds_ofList keys) maxSteps, (edges_perm neat bound).trans (.of_eq all),
    fun s hs => ?_, fun before s after split => ?_⟩
  · obtain ⟨_, _, trail⟩ := exists_trail_of_mem (fun p => (known p).mp) bound _ ∅ (fun p => (known p).mpr) s hs
    rw [s.getLast?_tokens]
    constructor
    · exact ⟨fun round => List.mem_of_getLast? (trail.getLast?_of_closed round), trail.closed_of_mem⟩
    · exact fun back => trail.getLast?_of_closed (trail.closed_of_mem back)
  · have first := subpathsFrom_start (fun p => (known p).mp) bound _ ∅ (fun p => (known p).mpr) split
    rw [starts] at first
    simpa using first

/-- A walk that runs into itself, one that runs into it, a segment from a point to itself, and a dead end. -/
def knotted : List (String × String) :=
  [("1,0", "2,0"), ("2,0", "3,0"), ("3,0", "2,0"), ("0,0", "2,0"), ("5,5", "5,5"), ("7,7", "8,8")]

/-- The six entries are drawn with six steps, each once. -/
theorem stitching_covers_map_knotted :
    (knotted.map Prod.fst).Nodup ∧ (∀ e ∈ knotted, IsKey e.1 ∧ IsKey e.2) ∧ knotted.length ≤ 6 ∧
    ((stitch (.ofList knotted) 6).flatMap Subpath.edges).Perm knotted ∧
    ∀ before s after, stitch (.ofList knotted) 6 = before ++ s :: after →
      (knotted.map Prod.fst).find? (fun key => key ∉ before.flatMap Subpath.points) = some s.start := by
  have distinct : (knotted.map Prod.fst).Nodup := by decide
  have keys : ∀ e ∈ knotted, IsKey e.1 ∧ IsKey e.2 := by
    unfold IsKey
    decide
  obtain ⟨-, once, -, first⟩ := @stitching_covers_map knotted 6 distinct keys (by decide)
  exact ⟨distinct, keys, by decide, once, first⟩

end VectorGraph.Contour
