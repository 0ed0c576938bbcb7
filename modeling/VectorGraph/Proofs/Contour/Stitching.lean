import Mathlib.Data.List.Perm.Basic
import Mathlib.Data.List.Nodup
import Std.Data.HashMap.Lemmas
import Std.Data.HashSet.Lemmas
import VectorGraph.Contour.Stitch

/-!
What the subpaths of a map of segments draw.

A walk is described without a bound on its steps by `Trail`: from the point that was drawn last it ends at a
dead end, closes at its own start, meets a point that was drawn before, or goes on to a new point. A bound that
is no less than the number of segments is never reached, since every point that a walk goes on from is the
start of a segment that was not drawn (`exists_trail`).

A trail draws the segments of the points that it goes on from. So the subpaths of a map draw every segment of
the map once (`edges_perm`). Where a segment starts at every end of a segment, and no two segments have the
same end, every walk returns to its start: a point that was drawn before would be the end of two segments
(`closed_of_looped`).
-/
namespace VectorGraph

variable {κ : Type} [BEq κ] [LawfulBEq κ] [Hashable κ]

namespace SegmentMap

variable {m : SegmentMap κ} {start stop p : κ}

theorem end?_insert :
    (m.insert start stop).end? p = if start == p then some stop else m.end? p := by
  simp only [insert, end?, Std.HashMap.getElem?_insert]

/-- The starting points are in order, each once, and each has an end. -/
structure Neat (m : SegmentMap κ) : Prop where
  distinct : m.recent.Nodup
  starts : ∀ p, p ∈ m.recent ↔ m.end? p ≠ none

theorem neat_empty : (empty : SegmentMap κ).Neat where
  distinct := List.nodup_nil
  starts p := by simp [empty, end?]

theorem Neat.contains (h : m.Neat) : m.ends.contains p = true ↔ p ∈ m.recent := by
  rw [h.starts p, end?, Std.HashMap.contains_eq_isSome_getElem?, ← Option.isSome_iff_ne_none]

theorem Neat.insert (h : m.Neat) (start stop : κ) : (m.insert start stop).Neat := by
  have kept : (m.insert start stop).recent = if m.ends.contains start then m.recent else start :: m.recent := rfl
  constructor
  · rw [kept]
    split
    · exact h.distinct
    · next new => exact List.nodup_cons.mpr ⟨mt h.contains.mpr new, h.distinct⟩
  · intro p
    rw [kept, end?_insert]
    by_cases same : start = p
    · subst same
      simp only [beq_self_eq_true, if_true, ne_eq, Option.some_ne_none, not_false_eq_true, iff_true]
      split
      · next old => exact h.contains.mp old
      · exact List.mem_cons_self
    · have other : (start == p) = false := by simpa using same
      rw [other, if_neg Bool.false_ne_true, ← h.starts p]
      split
      · exact Iff.rfl
      · exact List.mem_cons.trans (or_iff_right (Ne.symm same))

theorem neat_ofList (segments : List (κ × κ)) : (ofList segments).Neat := by
  have fold : ∀ (segments : List (κ × κ)) (m : SegmentMap κ), m.Neat →
      (segments.foldl (fun m s => m.insert s.1 s.2) m).Neat := by
    intro segments
    induction segments with
    | nil => exact fun _ h => h
    | cons s rest ih => exact fun m h => ih _ (h.insert s.1 s.2)
  exact fold segments empty neat_empty

omit [LawfulBEq κ] in
theorem Neat.mem_toList (h : m.Neat) : (start, stop) ∈ m.toList ↔ m.end? start = some stop := by
  simp only [toList, SegmentMap.starts, List.mem_filterMap, List.mem_reverse, Option.map_eq_some_iff,
    Prod.mk.injEq, h.starts]
  constructor
  · rintro ⟨p, -, q, ends, rfl, rfl⟩
    exact ends
  · exact fun ends => ⟨start, ends ▸ Option.some_ne_none stop, stop, ends, rfl, rfl⟩

omit [LawfulBEq κ] in
theorem Neat.map_fst_toList (h : m.Neat) : m.toList.map Prod.fst = m.starts := by
  have ends : ∀ p ∈ m.starts, m.end? p ≠ none := fun p hp => (h.starts p).mp (List.mem_reverse.mp hp)
  unfold toList
  generalize m.starts = points at ends
  induction points with
  | nil => rfl
  | cons p rest ih =>
    obtain ⟨here, later⟩ := List.forall_mem_cons.mp ends
    obtain ⟨q, hq⟩ := Option.ne_none_iff_exists'.mp here
    rw [List.filterMap_cons, hq]
    exact congrArg (p :: ·) (ih later)

/-- A segment that starts where none has started comes last. -/
theorem Neat.toList_insert (h : m.Neat) (new : start ∉ m.recent) :
    (m.insert start stop).toList = m.toList ++ [(start, stop)] := by
  have recent : (m.insert start stop).recent = start :: m.recent := by
    rw [SegmentMap.insert, if_neg (mt h.contains.mp new)]
  have here : (m.insert start stop).end? start = some stop := by
    rw [end?_insert, if_pos (beq_self_eq_true start)]
  have kept : ∀ p ∈ m.recent, (m.insert start stop).end? p = m.end? p := by
    intro p hp
    rw [end?_insert, if_neg]
    rw [beq_iff_eq]
    rintro rfl
    exact new hp
  unfold toList SegmentMap.starts
  rw [recent, List.reverse_cons, List.filterMap_append, List.filterMap_cons, here]
  refine congrArg (· ++ [(start, stop)]) (List.filterMap_congr fun p hp => ?_)
  rw [kept p (List.mem_reverse.mp hp)]

/-- Segments that start at different points are all kept, in order. -/
theorem toList_ofList {segments : List (κ × κ)} (distinct : (segments.map Prod.fst).Nodup) :
    (ofList segments).toList = segments := by
  have fold : ∀ (segments : List (κ × κ)) (m : SegmentMap κ), m.Neat → (segments.map Prod.fst).Nodup →
      (∀ s ∈ segments, s.1 ∉ m.recent) →
      (segments.foldl (fun m s => m.insert s.1 s.2) m).toList = m.toList ++ segments := by
    intro segments
    induction segments with
    | nil => exact fun m _ _ _ => (List.append_nil _).symm
    | cons s rest ih =>
      intro m h distinct new
      obtain ⟨first, later⟩ := List.nodup_cons.mp distinct
      obtain ⟨here, others⟩ := List.forall_mem_cons.mp new
      rw [List.foldl_cons, ih _ (h.insert s.1 s.2) later, h.toList_insert here, List.append_assoc]
      · rfl
      · intro r hr old
        rcases List.mem_cons.mp (by rwa [SegmentMap.insert, if_neg (mt h.contains.mp here)] at old) with same | old
        · exact first (same ▸ List.mem_map_of_mem hr)
        · exact others r hr old
  exact fold segments empty neat_empty distinct fun s _ => List.not_mem_nil

end SegmentMap

namespace Contour

variable {next : κ → Option κ} {start last p q : κ} {drawn drawn' : Std.HashSet κ} {more : List κ}
  {closed : Bool}

/-- The segments that a subpath draws: those between consecutive points. -/
def Subpath.edges (s : Subpath κ) : List (κ × κ) := (s.start :: s.rest).zip s.rest

/-! ## Walks without a bound -/

/-- A walk from the point `last`, the points that it draws after that, whether it closes, and the points drawn
when it is over. -/
inductive Trail (next : κ → Option κ) (start : κ) :
    Std.HashSet κ → κ → List κ → Bool → Std.HashSet κ → Prop where
  /-- No segment starts at the last point. -/
  | ends {drawn : Std.HashSet κ} {last : κ} (dead : next last = none) :
      Trail next start drawn last [] false drawn
  | closes {drawn : Std.HashSet κ} {last : κ} (leads : next last = some start) :
      Trail next start drawn last [start] true drawn
  | meets {drawn : Std.HashSet κ} {last p : κ} (leads : next last = some p) (off : p ≠ start) (old : p ∈ drawn) :
      Trail next start drawn last [p] false drawn
  | goes {drawn drawn' : Std.HashSet κ} {last p : κ} {more : List κ} {closed : Bool} (leads : next last = some p)
      (off : p ≠ start) (new : p ∉ drawn) (later : Trail next start (drawn.insert p) p more closed drawn') :
      Trail next start drawn last (p :: more) closed drawn'

/-- With enough steps, what is followed is the trail. -/
theorem Trail.follow (h : Trail next start drawn last more closed drawn') :
    ∀ (steps : Nat) (rest : List κ), more.length ≤ steps →
    Contour.follow next start steps (next last) drawn rest = (⟨start, rest.reverse ++ more, closed⟩, drawn') := by
  induction h with
  | ends dead =>
    intro steps rest _
    rw [dead, List.append_nil]
    cases steps <;> rfl
  | closes leads =>
    intro steps rest enough
    obtain ⟨steps, rfl⟩ := Nat.exists_eq_succ_of_ne_zero (Nat.ne_of_gt enough)
    rw [leads, Contour.follow, if_pos (beq_self_eq_true start), List.reverse_cons]
  | meets leads off old =>
    intro steps rest enough
    obtain ⟨steps, rfl⟩ := Nat.exists_eq_succ_of_ne_zero (Nat.ne_of_gt enough)
    rw [leads, Contour.follow, if_neg (by simpa using off), if_pos (Std.HashSet.contains_iff_mem.mpr old),
      List.reverse_cons]
  | goes leads off new later ih =>
    intro steps rest enough
    obtain ⟨steps, rfl⟩ := Nat.exists_eq_succ_of_ne_zero (Nat.ne_of_gt (Nat.zero_lt_of_lt enough))
    rw [leads, Contour.follow, if_neg (by simpa using off), if_neg (mt Std.HashSet.contains_iff_mem.mp new),
      ih steps _ (Nat.le_of_succ_le_succ enough), List.reverse_cons, List.append_assoc]
    rfl

/-- The points of a list that are not drawn. -/
def undrawn (points : List κ) (drawn : Std.HashSet κ) : List κ := points.filter fun p => !drawn.contains p

theorem length_undrawn_insert {points : List κ} (there : p ∈ points) (new : p ∉ drawn) :
    (undrawn points (drawn.insert p)).length < (undrawn points drawn).length := by
  have fewer : undrawn points (drawn.insert p) = (undrawn points drawn).filter fun q => !(p == q) := by
    unfold undrawn
    rw [List.filter_filter]
    refine List.filter_congr fun q _ => ?_
    rw [Std.HashSet.contains_insert, Bool.not_or]
  rw [fewer]
  refine List.length_filter_lt_length_iff_exists.mpr ⟨p, ?_, by simp⟩
  rw [undrawn, List.mem_filter, Bool.not_eq_true', ← Bool.not_eq_true, Std.HashSet.contains_iff_mem]
  exact ⟨there, new⟩

/-- Every walk comes to an end: it goes on from starts of segments only, and from none of them twice. -/
theorem exists_trail {points : List κ} (known : ∀ p, next p ≠ none → p ∈ points) (start : κ)
    (drawn : Std.HashSet κ) (last : κ) :
    ∃ more closed drawn', Trail next start drawn last more closed drawn' ∧
      more.length ≤ (undrawn points drawn).length + 1 := by
  -- The induction is on the number of points that are not drawn: a walk that goes on draws one of them.
  induction few : (undrawn points drawn).length using Nat.strongRecOn generalizing drawn last with
  | _ count ih =>
    cases leads : next last with
    | none => exact ⟨[], false, drawn, .ends leads, Nat.zero_le _⟩
    | some p =>
      by_cases off : p = start
      · subst off
        exact ⟨[p], true, drawn, .closes leads, by simp⟩
      · by_cases old : p ∈ drawn
        · exact ⟨[p], false, drawn, .meets leads off old, by simp⟩
        · by_cases live : next p = none
          · exact ⟨[p], false, drawn.insert p, .goes leads off old (.ends live), by simp⟩
          · have fewer := length_undrawn_insert (known p live) old
            obtain ⟨more, closed, drawn', trail, short⟩ := ih _ (few ▸ fewer) (drawn.insert p) p rfl
            refine ⟨p :: more, closed, drawn', .goes leads off old trail, ?_⟩
            rw [List.length_cons]
            omega

/-! ## What a walk draws -/

theorem Trail.subset (h : Trail next start drawn last more closed drawn') : ∀ p, p ∈ drawn → p ∈ drawn' := by
  induction h with
  | ends | closes | meets => exact fun p hp => hp
  | goes _ _ _ _ ih => exact fun p hp => ih p (Std.HashSet.mem_insert.mpr (.inr hp))

omit [LawfulBEq κ] in
/-- A trail draws segments. -/
theorem Trail.leads (h : Trail next start drawn last more closed drawn') :
    ∀ e ∈ (last :: more).zip more, next e.1 = some e.2 := by
  induction h with
  | ends => simp
  | closes leads | meets leads => simpa using leads
  | goes leads _ _ _ ih => exact List.forall_mem_cons.mpr ⟨leads, ih⟩

/-- A trail draws the segments of the points that it has drawn, its last point to begin with. -/
theorem Trail.mem_sources (h : Trail next start drawn last more closed drawn') :
    p ∈ ((last :: more).zip more).map Prod.fst ↔
      next p ≠ none ∧ (p = last ∨ p ∈ drawn' ∧ p ∉ drawn) := by
  induction h with
  | @ends drawn last dead =>
    constructor
    · simp
    · rintro ⟨live, rfl | ⟨there, off⟩⟩
      · exact absurd dead live
      · exact absurd there off
  | @closes drawn last leads =>
    constructor
    · intro mem
      obtain rfl : p = last := by simpa using mem
      exact ⟨leads ▸ Option.some_ne_none start, .inl rfl⟩
    · rintro ⟨-, rfl | ⟨there, off⟩⟩
      · simp
      · exact absurd there off
  | @meets drawn last q leads =>
    constructor
    · intro mem
      obtain rfl : p = last := by simpa using mem
      exact ⟨leads ▸ Option.some_ne_none q, .inl rfl⟩
    · rintro ⟨-, rfl | ⟨there, off⟩⟩
      · simp
      · exact absurd there off
  | @goes drawn drawn' last q more closed leads off new later ih =>
    rw [List.zip_cons_cons, List.map_cons, List.mem_cons, ih, Std.HashSet.mem_insert, beq_iff_eq]
    -- The point that the trail goes on to was new and is drawn at the end: it counts on either side.
    have reached : q ∈ drawn' := later.subset q Std.HashSet.mem_insert_self
    constructor
    · rintro (rfl | ⟨live, rfl | ⟨there, out⟩⟩)
      · exact ⟨leads ▸ Option.some_ne_none q, .inl rfl⟩
      · exact ⟨live, .inr ⟨reached, new⟩⟩
      · exact ⟨live, .inr ⟨there, fun old => out (.inr old)⟩⟩
    · rintro ⟨live, rfl | ⟨there, out⟩⟩
      · exact .inl rfl
      · by_cases same : q = p
        · exact .inr ⟨live, .inl same.symm⟩
        · exact .inr ⟨live, .inr ⟨there, not_or.mpr ⟨same, out⟩⟩⟩

/-- A trail draws no segment twice. -/
theorem Trail.nodup_sources (h : Trail next start drawn last more closed drawn') :
    last ∈ drawn → (((last :: more).zip more).map Prod.fst).Nodup := by
  induction h with
  | ends | closes | meets => intro _; simp
  | @goes drawn drawn' last q more closed leads off new later ih =>
    intro there
    rw [List.zip_cons_cons, List.map_cons, List.nodup_cons, later.mem_sources]
    refine ⟨?_, ih Std.HashSet.mem_insert_self⟩
    rintro ⟨-, same | ⟨-, out⟩⟩
    · exact new (same ▸ there)
    · exact out (Std.HashSet.mem_insert.mpr (.inr there))

/-! ## All subpaths -/

/-- What the subpaths from some starting points draw, where the points of `drawn` are drawn already. -/
structure Draws (next : κ → Option κ) (points starts : List κ) (drawn : Std.HashSet κ)
    (subpaths : List (Subpath κ)) : Prop where
  leads : ∀ e ∈ subpaths.flatMap Subpath.edges, next e.1 = some e.2
  once : ((subpaths.flatMap Subpath.edges).map Prod.fst).Nodup
  new : ∀ p ∈ (subpaths.flatMap Subpath.edges).map Prod.fst, p ∉ drawn
  all : ∀ p ∈ starts, p ∈ drawn ∨ p ∈ (subpaths.flatMap Subpath.edges).map Prod.fst
  short : ∀ s ∈ subpaths, s.rest.length ≤ points.length

/-- A subpath that is drawn starts with a trail from a new point. -/
theorem subpathsFrom_cons {maxSteps : Nat} {points : List κ} (rest : List κ)
    (known : ∀ p, next p ≠ none → p ∈ points) (enough : points.length ≤ maxSteps) (there : start ∈ points) (new : start ∉ drawn) :
    ∃ more closed drawn', Trail next start (drawn.insert start) start more closed drawn' ∧
      more.length ≤ points.length ∧
      subpathsFrom next maxSteps (start :: rest) drawn =
        ⟨start, more, closed⟩ :: subpathsFrom next maxSteps rest drawn' := by
  have fewer := length_undrawn_insert there new
  have all : (undrawn points drawn).length ≤ points.length := List.length_filter_le _ _
  obtain ⟨more, closed, drawn', trail, short⟩ := exists_trail known start (drawn.insert start) start
  have brief : more.length ≤ points.length := by omega
  refine ⟨more, closed, drawn', trail, brief, ?_⟩
  rw [subpathsFrom, if_neg (mt Std.HashSet.contains_iff_mem.mp new),
    trail.follow maxSteps [] (Nat.le_trans brief enough)]
  rfl

omit [LawfulBEq κ] in
theorem subpathsFrom_cons_of_mem {maxSteps : Nat} {rest : List κ} (old : start ∈ drawn) :
    subpathsFrom next maxSteps (start :: rest) drawn = subpathsFrom next maxSteps rest drawn := by
  rw [subpathsFrom, if_pos (Std.HashSet.contains_iff_mem.mpr old)]

/-- The trail from a new point draws the segments of the points that are new in it. -/
theorem Trail.mem_sources_of_new (h : Trail next start (drawn.insert start) start more closed drawn')
    (new : start ∉ drawn) :
    p ∈ ((start :: more).zip more).map Prod.fst ↔ next p ≠ none ∧ p ∈ drawn' ∧ p ∉ drawn := by
  rw [h.mem_sources, Std.HashSet.mem_insert, beq_iff_eq]
  refine and_congr_right fun _ => ⟨?_, ?_⟩
  · rintro (rfl | ⟨reached, out⟩)
    · exact ⟨h.subset _ Std.HashSet.mem_insert_self, new⟩
    · exact ⟨reached, fun old => out (.inr old)⟩
  · rintro ⟨reached, out⟩
    by_cases same : p = start
    · exact .inl same
    · exact .inr ⟨reached, not_or.mpr ⟨Ne.symm same, out⟩⟩

/-- A trail from a new point, and what is drawn after it. -/
theorem Draws.cons {points rest : List κ} {subpaths : List (Subpath κ)}
    (tail : Draws next points rest drawn' subpaths)
    (trail : Trail next start (drawn.insert start) start more closed drawn') (new : start ∉ drawn)
    (brief : more.length ≤ points.length) (live : ∀ p ∈ start :: rest, next p ≠ none) :
    Draws next points (start :: rest) drawn (⟨start, more, closed⟩ :: subpaths) := by
  -- The trail draws from the points that are new in its set; the subpaths after it draw from the points that are not.
  have sources : ∀ p, p ∈ ((start :: more).zip more).map Prod.fst ↔ next p ≠ none ∧ p ∈ drawn' ∧ p ∉ drawn :=
    fun p => trail.mem_sources_of_new new
  have kept : ∀ p, p ∈ drawn → p ∈ drawn' :=
    fun p hp => trail.subset p (Std.HashSet.mem_insert.mpr (.inr hp))
  have split : ((⟨start, more, closed⟩ : Subpath κ) :: subpaths).flatMap Subpath.edges =
      (start :: more).zip more ++ subpaths.flatMap Subpath.edges := rfl
  constructor
  · rw [split]
    exact List.forall_mem_append.mpr ⟨trail.leads, tail.leads⟩
  · rw [split, List.map_append]
    refine List.nodup_append.mpr
      ⟨trail.nodup_sources Std.HashSet.mem_insert_self, tail.once, fun p hp q hq same => ?_⟩
    exact tail.new q hq (same ▸ ((sources p).mp hp).2.1)
  · rw [split, List.map_append]
    refine List.forall_mem_append.mpr ⟨fun p hp => ((sources p).mp hp).2.2, fun p hp out => ?_⟩
    exact tail.new p hp (kept p out)
  · intro p hp
    rw [split, List.map_append, List.mem_append, sources]
    by_cases out : p ∈ drawn
    · exact .inl out
    · refine .inr ?_
      rcases List.mem_cons.mp hp with rfl | later
      · exact .inl ⟨live _ hp, trail.subset _ Std.HashSet.mem_insert_self, out⟩
      · exact (tail.all p later).imp (fun reached => ⟨live p hp, reached, out⟩) id
  · exact List.forall_mem_cons.mpr ⟨brief, tail.short⟩

theorem subpathsFrom_draws {maxSteps : Nat} {points : List κ} (known : ∀ p, next p ≠ none → p ∈ points)
    (enough : points.length ≤ maxSteps) (starts : List κ) : ∀ drawn : Std.HashSet κ,
    (∀ p ∈ starts, next p ≠ none) →
    Draws next points starts drawn (subpathsFrom next maxSteps starts drawn) := by
  induction starts with
  | nil => exact fun drawn _ => ⟨by simp [subpathsFrom], by simp [subpathsFrom], by simp [subpathsFrom],
      by simp, by simp [subpathsFrom]⟩
  | cons start rest ih =>
    intro drawn live
    obtain ⟨leads, later⟩ := List.forall_mem_cons.mp live
    by_cases old : start ∈ drawn
    · rw [subpathsFrom_cons_of_mem old]
      have tail := ih drawn later
      exact { tail with all := List.forall_mem_cons.mpr ⟨.inl old, tail.all⟩ }
    · obtain ⟨more, closed, drawn', trail, brief, eq⟩ := subpathsFrom_cons rest known enough (known start leads) old
      rw [eq]
      exact (ih drawn' later).cons trail old brief live

variable {m : SegmentMap κ} {maxSteps : Nat}

theorem stitch_draws (neat : m.Neat) (enough : m.starts.length ≤ maxSteps) :
    Draws m.end? m.starts m.starts ∅ (stitch m maxSteps) := by
  have starts : ∀ p, p ∈ m.starts ↔ m.end? p ≠ none := fun p => List.mem_reverse.trans (neat.starts p)
  exact subpathsFrom_draws (fun p live => (starts p).mpr live) enough m.starts ∅
    fun p hp => (starts p).mp hp

/-- The subpaths of a map draw every segment of the map once, if the bound on the steps is no less than the
number of segments. -/
theorem edges_perm (neat : m.Neat) (enough : m.starts.length ≤ maxSteps) :
    ((stitch m maxSteps).flatMap Subpath.edges).Perm m.toList := by
  have draws := stitch_draws neat enough
  have distinct : m.toList.Nodup := by
    refine List.Nodup.of_map Prod.fst ?_
    rw [neat.map_fst_toList]
    exact List.nodup_reverse.mpr neat.distinct
  refine (List.perm_ext_iff_of_nodup (List.Nodup.of_map _ draws.once) distinct).mpr fun ⟨p, q⟩ => ?_
  rw [neat.mem_toList]
  constructor
  · exact draws.leads (p, q)
  · intro ends
    have there : p ∈ m.starts := List.mem_reverse.mpr ((neat.starts p).mpr (ends ▸ Option.some_ne_none q))
    obtain ⟨⟨p', q'⟩, mem, rfl⟩ := List.mem_map.mp ((draws.all p there).resolve_left (by simp))
    have same := (draws.leads _ mem).symm.trans ends
    exact Option.some.inj same ▸ mem

/-! ## Closed walks -/

/-- A segment starts at every end, and no two segments have the same end. -/
structure Looped (next : κ → Option κ) : Prop where
  onward : ∀ p q, next p = some q → next q ≠ none
  oneToOne : ∀ p p' q, next p = some q → next p' = some q → p = p'

/-- A trail closes if every point drawn so far, its start apart, is the end of a segment from a point drawn
before the last one. And then all points drawn are ends of segments from points drawn. -/
theorem Trail.closed_of_looped (looped : Looped next) (h : Trail next start drawn last more closed drawn') :
    last ∈ drawn → next last ≠ none →
    (∀ q, q ∈ drawn → q = start ∨ ∃ p, p ∈ drawn ∧ p ≠ last ∧ next p = some q) →
    closed = true ∧ ∀ q, q ∈ drawn' → ∃ p, p ∈ drawn' ∧ next p = some q := by
  induction h with
  | ends dead => exact fun _ live => absurd dead live
  | @closes drawn last leads =>
    intro there _ before
    refine ⟨rfl, fun q hq => ?_⟩
    rcases before q hq with rfl | ⟨p, hp, -, ends⟩
    · exact ⟨last, there, leads⟩
    · exact ⟨p, hp, ends⟩
  | meets leads off old =>
    intro _ _ before
    -- the point that is met is the end of another segment as well
    rcases before _ old with same | ⟨p, -, other, ends⟩
    · exact absurd same off
    · exact absurd (looped.oneToOne _ _ _ ends leads) other
  | @goes drawn drawn' last p more closed leads off new later ih =>
    intro there _ before
    refine ih Std.HashSet.mem_insert_self (looped.onward _ _ leads) fun q hq => ?_
    have other : ∀ r, r ∈ drawn → r ≠ p := fun r hr same => new (same ▸ hr)
    rcases Std.HashSet.mem_insert.mp hq with same | hq
    · obtain rfl := beq_iff_eq.mp same
      exact .inr ⟨last, Std.HashSet.mem_insert.mpr (.inr there), other last there, leads⟩
    · rcases before q hq with same | ⟨r, hr, -, ends⟩
      · exact .inl same
      · exact .inr ⟨r, Std.HashSet.mem_insert.mpr (.inr hr), other r hr, ends⟩

theorem subpathsFrom_closed {points : List κ} (known : ∀ p, next p ≠ none → p ∈ points)
    (enough : points.length ≤ maxSteps) (looped : Looped next) (starts : List κ) : ∀ drawn : Std.HashSet κ,
    (∀ p ∈ starts, next p ≠ none) →
    (∀ q, q ∈ drawn → ∃ p, p ∈ drawn ∧ next p = some q) →
    ∀ s ∈ subpathsFrom next maxSteps starts drawn, s.closed = true := by
  induction starts with
  | nil => exact fun drawn _ _ s mem => nomatch mem
  | cons start rest ih =>
    intro drawn live before
    obtain ⟨leads, later⟩ := List.forall_mem_cons.mp live
    by_cases old : start ∈ drawn
    · rw [subpathsFrom_cons_of_mem old]
      exact ih drawn later before
    · obtain ⟨more, closed, drawn', trail, -, eq⟩ := subpathsFrom_cons rest known enough (known start leads) old
      rw [eq]
      obtain ⟨round, before'⟩ := trail.closed_of_looped looped Std.HashSet.mem_insert_self leads fun q hq => by
        rcases Std.HashSet.mem_insert.mp hq with same | hq
        · exact .inl (beq_iff_eq.mp same).symm
        · obtain ⟨p, hp, ends⟩ := before q hq
          exact .inr ⟨p, Std.HashSet.mem_insert.mpr (.inr hp), fun same => old (same ▸ hp), ends⟩
      exact List.forall_mem_cons.mpr ⟨round, ih drawn' later before'⟩

/-- Every subpath of a looped map is closed. -/
theorem closed_of_looped (neat : m.Neat) (enough : m.starts.length ≤ maxSteps) (looped : Looped m.end?) :
    ∀ s ∈ stitch m maxSteps, s.closed = true := by
  have starts : ∀ p, p ∈ m.starts ↔ m.end? p ≠ none := fun p => List.mem_reverse.trans (neat.starts p)
  exact subpathsFrom_closed (fun p live => (starts p).mpr live) enough looped m.starts ∅
    (fun p hp => (starts p).mp hp) fun q hq => absurd hq (by simp)

end Contour

end VectorGraph
