import VectorGraph.Proofs.Json.Held
import VectorGraph.Proofs.Outline.Curves
import VectorGraph.Proofs.Outline.Held
import VectorGraph.Proofs.Results

/-!
Curves through anchors.

An anchor with two finite coordinates is a joint of the outline, together with its handles; a handle without two
finite coordinates is the anchor itself. The outline runs through the joints in order, along the handle after the one
and the handle before the next (`bezier_eq_chain`), and all other anchors are passed over.
-/
namespace VectorGraph.Outline

/-! ## Joints -/

/-- Whether doubles can hold the coordinates, as far as there are any. -/
structure Spot.Held (s : Spot) : Prop where
  x : ∀ a, s.x = some a → a.toFloat? ≠ none
  y : ∀ a, s.y = some a → a.toFloat? ≠ none

/-- Whether doubles can hold all coordinates of an anchor and its handles. -/
structure Anchor.Held (a : Anchor) : Prop where
  spot : a.spot.Held
  handleIn : ∀ s, a.handleIn = some s → s.Held
  handleOut : ∀ s, a.handleOut = some s → s.Held

theorem Spot.held_iff {s : Spot} :
    s.Held ↔ s.x.all (·.toFloat?.isSome) = true ∧ s.y.all (·.toFloat?.isSome) = true := by
  simp only [Option.all_eq_true, Option.isSome_iff_ne_none]
  exact ⟨fun held => ⟨held.x, held.y⟩, fun held => ⟨held.1, held.2⟩⟩

instance (s : Spot) : Decidable s.Held := decidable_of_iff' _ Spot.held_iff

theorem Anchor.held_iff {a : Anchor} :
    a.Held ↔ a.spot.Held ∧ (∀ s ∈ a.handleIn, s.Held) ∧ ∀ s ∈ a.handleOut, s.Held :=
  ⟨fun held => ⟨held.spot, held.handleIn, held.handleOut⟩, fun held => ⟨held.1, held.2.1, held.2.2⟩⟩

instance (a : Anchor) : Decidable a.Held := decidable_of_iff' _ Anchor.held_iff

/-- The place of a spot with two finite coordinates. -/
def Spot.place? (s : Spot) : Option (Scalar × Scalar) :=
  match s.x, s.y with
  | some x, some y => if x.isNumber && y.isNumber then some (x, y) else none
  | _, _ => none

/-- The place of a handle, or that of its anchor if the handle has none. -/
def placeOr (handle : Option Spot) (anchor : Scalar × Scalar) : Scalar × Scalar :=
  (handle.bind Spot.place?).getD anchor

/-- A place of the outline with its handles. -/
structure Joint where
  place : Scalar × Scalar
  before : Scalar × Scalar
  after : Scalar × Scalar

def joint? (anchor : Option Anchor) : Option Joint := do
  let a ← anchor
  let p ← a.spot.place?
  return ⟨p, placeOr a.handleIn p, placeOr a.handleOut p⟩

/-- The joints of a list of anchors. -/
def joints (anchors : List (Option Anchor)) : List Joint := anchors.filterMap joint?

/-- Whether an anchor is there and has two finite coordinates. -/
def isValid (anchor : Option Anchor) : Bool := (anchor.bind fun a => a.spot.place?).isSome

/-- The curve from one joint to the next. -/
def Joint.link (j k : Joint) : Curve Scalar := ⟨j.place, j.after, k.before, k.place⟩

theorem isSome_joint? (anchor : Option Anchor) : (joint? anchor).isSome = isValid anchor := by
  cases anchor with
  | none => rfl
  | some a =>
    show (joint? (some a)).isSome = a.spot.place?.isSome
    simp only [joint?, bind, Option.bind_some, pure]
    cases a.spot.place? <;> rfl

theorem joints_filter (anchors : List (Option Anchor)) : joints (anchors.filter isValid) = joints anchors := by
  have same : ∀ a, (if isValid a then joint? a else none) = joint? a := fun a => by
    rw [← isSome_joint?]
    cases joint? a <;> rfl
  rw [joints, joints, List.filterMap_filter]
  simp only [same]

/-- There are as many joints as valid anchors. -/
theorem length_joints (anchors : List (Option Anchor)) :
    (joints anchors).length = (anchors.filter isValid).length := by
  rw [joints, List.length_filterMap_eq_countP, ← List.countP_eq_length_filter]
  simp only [isSome_joint?]

/-! ## Reading anchors -/

section Reading

variable {s : Spot} {a : Anchor} {p : Scalar × Scalar}

theorem point?_eq (held : s.Held) : s.point? = .ok s.place? := by
  obtain ⟨x, y⟩ := s
  cases x with
  | none => rfl
  | some x =>
    have finiteX : isFinite x = .ok x.isNumber := isFinite_eq (held.x x rfl)
    cases y with
    | none =>
      simp only [Spot.point?, finiteX, Spot.place?]
      cases x.isNumber <;> rfl
    | some y =>
      have finiteY : isFinite y = .ok y.isNumber := isFinite_eq (held.y y rfl)
      simp only [Spot.point?, finiteX, finiteY, Spot.place?]
      cases x.isNumber <;> cases y.isNumber <;> rfl

theorem handleOr_eq {handle : Option Spot} (held : ∀ s, handle = some s → s.Held) :
    handleOr handle p = .ok (placeOr handle p) := by
  cases handle with
  | none => rfl
  | some s =>
    simp only [handleOr, point?_eq (held s rfl)]
    rfl

/-- A valid anchor as the outline keeps it, its handles not looked at yet. -/
def knot? (anchor : Option Anchor) : Option Knot :=
  anchor.bind fun a => a.spot.place?.map fun p => ⟨p, a.handleIn, a.handleOut⟩

/-- The joint that a knot becomes. -/
def Knot.joint (k : Knot) : Joint := ⟨k.point, placeOr k.handleIn k.point, placeOr k.handleOut k.point⟩

/-- Whether doubles can hold what a knot keeps of its anchor. -/
structure Knot.Held (k : Knot) : Prop where
  handleIn : ∀ s, k.handleIn = some s → s.Held
  handleOut : ∀ s, k.handleOut = some s → s.Held

theorem knots_eq {anchors : List (Option Anchor)} (held : ∀ a, some a ∈ anchors → a.Held) :
    knots anchors = .ok (anchors.filterMap knot?) := by
  unfold knots
  rw [mapM_eq_ok (g := knot?)]
  · show Except.ok _ = Except.ok _
    rw [List.filterMap_map]
    rfl
  · intro anchor there
    cases anchor with
    | none => rfl
    | some a =>
      simp only [point?_eq (held a there).spot]
      rfl

theorem joint_of_knot? (anchor : Option Anchor) : (knot? anchor).map Knot.joint = joint? anchor := by
  cases anchor with
  | none => rfl
  | some a =>
    simp only [knot?, joint?, Option.bind_some, bind, pure, Option.map_map]
    cases a.spot.place? <;> rfl

theorem joints_eq_map (anchors : List (Option Anchor)) :
    joints anchors = (anchors.filterMap knot?).map Knot.joint := by
  simp only [joints, List.map_filterMap, joint_of_knot?]

theorem knot_held {anchors : List (Option Anchor)} (held : ∀ a, some a ∈ anchors → a.Held) :
    ∀ k ∈ anchors.filterMap knot?, k.Held := by
  intro k there
  obtain ⟨anchor, member, found⟩ := List.mem_filterMap.mp there
  cases anchor with
  | none => cases found
  | some a =>
    obtain ⟨p, -, rfl⟩ := Option.map_eq_some_iff.mp found
    exact ⟨(held a member).handleIn, (held a member).handleOut⟩

theorem segment_eq {k l : Knot} (heldK : k.Held) (heldL : l.Held) :
    segment k l = .ok (k.joint.link l.joint).command := by
  simp only [segment, handleOr_eq heldK.handleOut, handleOr_eq heldL.handleIn]
  rfl

end Reading

/-! ## The chain -/

/-- The curves from joint to joint, back to the first one if the outline is closed. -/
def links (first : Joint) (rest : List Joint) (closed : Bool) : List (Curve Scalar) :=
  List.zipWith Joint.link (first :: rest) (rest ++ if closed then [first] else [])

/-- The outline through joints. A single one is never closed. -/
def chain (all : List Joint) (closed : Bool) : Outline Scalar :=
  match all with
  | [] => []
  | first :: rest =>
    let around := closed && !rest.isEmpty
    through first.place (links first rest around) around

/-- The curve back to the first joint comes after the others. -/
theorem links_concat (first last : Joint) (rest : List Joint) :
    links first (rest ++ [last]) true = links first (rest ++ [last]) false ++ [last.link first] := by
  have general : ∀ (j : Joint), List.zipWith Joint.link (j :: (rest ++ [last])) (rest ++ [last] ++ [first]) =
      List.zipWith Joint.link (j :: (rest ++ [last])) (rest ++ [last]) ++ [last.link first] := by
    induction rest with
    | nil => intro j; rfl
    | cons k rest ih =>
      intro j
      simp only [List.cons_append, List.zipWith_cons_cons]
      exact congrArg _ (ih k)
  simpa [links] using general first

/-- With more than one joint, an outline is closed if it is to be. -/
theorem chain_of_ne_nil {first : Joint} {rest : List Joint} (more : rest ≠ []) (closed : Bool) :
    chain (first :: rest) closed = through first.place (links first rest closed) closed := by
  have around : (closed && !rest.isEmpty) = closed := by simp [more]
  simp only [chain, around]

section Knots

variable {first : Knot} {rest : List Knot}

theorem mapM_segment_eq (each : ∀ k ∈ first :: rest, k.Held) :
    ((first :: rest).zip rest).mapM (fun p => segment p.1 p.2) =
      .ok ((links first.joint (rest.map Knot.joint) false).map Curve.command) := by
  have pairs : ∀ p ∈ (first :: rest).zip rest, segment p.1 p.2 = .ok (p.1.joint.link p.2.joint).command :=
    fun p there => by
      have ends := List.of_mem_zip there
      exact segment_eq (each _ ends.1) (each _ (List.mem_cons_of_mem first ends.2))
  rw [mapM_eq_ok _ pairs]
  simp only [links, Bool.false_eq_true, if_false, List.append_nil, ← List.map_cons,
    List.zipWith_map, List.map_zipWith, List.zip]

theorem bezier_knots_eq {anchors : List (Option Anchor)} (read : knots anchors = .ok (first :: rest))
    (each : ∀ k ∈ first :: rest, k.Held) (closed : Bool) :
    bezier anchors closed = .ok (chain ((first :: rest).map Knot.joint) closed) := by
  have curves := mapM_segment_eq each
  unfold bezier
  rw [read]
  change (List.mapM (fun p : Knot × Knot => segment p.1 p.2) _ >>= fun curves => _) = _
  rw [curves]
  -- the closing curve starts at the last knot, and there is none if that is the first one
  rcases List.eq_nil_or_concat' rest with rfl | ⟨init, last, rfl⟩
  · cases closed <;> rfl
  · have more : (init ++ [last]).map Knot.joint ≠ [] := by simp
    rw [List.map_cons, chain_of_ne_nil more]
    cases closed with
    | false =>
      show Except.ok _ = Except.ok _
      simp [through, Knot.joint]
    | true =>
      have closing : segment last first = .ok (last.joint.link first.joint).command :=
        segment_eq (each last (by simp)) (each first List.mem_cons_self)
      simp only [List.getLast?_concat, closing]
      show Except.ok _ = Except.ok _
      simp only [List.map_append, List.map_cons, List.map_nil, links_concat]
      simp [through, Knot.joint]

end Knots

/-- What an outline through anchors that doubles can hold is. -/
theorem bezier_eq_chain {anchors : List (Option Anchor)} (held : ∀ a, some a ∈ anchors → a.Held) (closed : Bool) :
    bezier anchors closed = .ok (chain (joints anchors) closed) := by
  have read := knots_eq held
  have each := knot_held held
  rw [joints_eq_map]
  cases found : anchors.filterMap knot? with
  | nil =>
    rw [found] at read
    simp only [bezier, read]
    rfl
  | cons first rest =>
    rw [found] at read each
    exact bezier_knots_eq read each closed

/-! ## What the chain is like -/

section Links

variable {first : Joint} {rest : List Joint}

theorem length_links (closed : Bool) :
    (links first rest closed).length = if closed then rest.length + 1 else rest.length := by
  cases closed <;> simp [links]

/-- What follows the joint at an index around the list. -/
theorem getElem?_next {closed : Bool} {i : Nat} (h : i < (links first rest closed).length) :
    (rest ++ if closed then [first] else [])[i]? = (first :: rest)[(i + 1) % (rest.length + 1)]? := by
  rw [length_links] at h
  by_cases inside : i < rest.length
  · rw [Nat.mod_eq_of_lt (by omega), List.getElem?_cons_succ, List.getElem?_append_left inside]
  · -- only a closed outline has a curve behind the last joint
    cases closed with
    | false => exact absurd h inside
    | true =>
      obtain rfl : i = rest.length := by
        simp only [if_true] at h
        omega
      simp

/-- Each curve runs from a joint to the next one, from the last one to the first. -/
theorem getElem?_links {closed : Bool} {i : Nat} (h : i < (links first rest closed).length) :
    ∃ j k, (first :: rest)[i]? = some j ∧ (first :: rest)[(i + 1) % (first :: rest).length]? = some k ∧
      (links first rest closed)[i]? = some (j.link k) := by
  have count : (links first rest closed).length = if closed then rest.length + 1 else rest.length :=
    length_links closed
  have here : i < (first :: rest).length := by
    rw [List.length_cons]
    split at count <;> omega
  have next := getElem?_next h
  have there : (i + 1) % (first :: rest).length < (first :: rest).length := Nat.mod_lt _ (Nat.succ_pos _)
  rw [← List.length_cons (a := first), List.getElem?_eq_getElem there] at next
  refine ⟨(first :: rest)[i], _, List.getElem?_eq_getElem here, List.getElem?_eq_getElem there, ?_⟩
  rw [links, List.getElem?_zipWith, List.getElem?_eq_getElem here, next]

theorem connected_links (closed : Bool) : Connected first.place (links first rest closed) := by
  unfold links
  generalize (if closed then [first] else []) = last
  -- what comes behind the joints is the same at each step
  induction rest generalizing first with
  | nil =>
    cases last with
    | nil => trivial
    | cons k _ => exact ⟨rfl, trivial⟩
  | cons j rest ih => exact ⟨rfl, ih⟩

end Links

/-! ## Coordinates -/

/-- Whether doubles can hold the coordinates of a joint and its handles. -/
structure Joint.Held (j : Joint) : Prop where
  place : j.place.1.toFloat? ≠ none ∧ j.place.2.toFloat? ≠ none
  before : j.before.1.toFloat? ≠ none ∧ j.before.2.toFloat? ≠ none
  after : j.after.1.toFloat? ≠ none ∧ j.after.2.toFloat? ≠ none

theorem place?_held {s : Spot} {p : Scalar × Scalar} (held : s.Held) (found : s.place? = some p) :
    p.1.toFloat? ≠ none ∧ p.2.toFloat? ≠ none := by
  unfold Spot.place? at found
  split at found
  · next x y foundX foundY =>
    split at found
    · obtain rfl := Option.some.inj found
      exact ⟨held.x x foundX, held.y y foundY⟩
    · cases found
  · cases found

theorem placeOr_held {handle : Option Spot} {p : Scalar × Scalar} (held : ∀ s, handle = some s → s.Held)
    (anchor : p.1.toFloat? ≠ none ∧ p.2.toFloat? ≠ none) :
    (placeOr handle p).1.toFloat? ≠ none ∧ (placeOr handle p).2.toFloat? ≠ none := by
  cases handle with
  | none => exact anchor
  | some s =>
    cases found : s.place? with
    | none => simpa [placeOr, found] using anchor
    | some q => simpa [placeOr, found] using place?_held (held s rfl) found

theorem joint?_held {a : Anchor} {j : Joint} (held : a.Held) (found : joint? (some a) = some j) : j.Held := by
  obtain ⟨p, place, made⟩ := Option.bind_eq_some_iff.mp found
  obtain rfl := Option.some.inj made
  have anchor := place?_held held.spot place
  exact ⟨anchor, placeOr_held held.handleIn anchor, placeOr_held held.handleOut anchor⟩

theorem joints_held {anchors : List (Option Anchor)} (held : ∀ a, some a ∈ anchors → a.Held) :
    ∀ j ∈ joints anchors, j.Held := by
  intro j there
  obtain ⟨anchor, member, found⟩ := List.mem_filterMap.mp there
  cases anchor with
  | none => cases found
  | some a => exact joint?_held (held a member) found

theorem mem_links {first : Joint} {rest : List Joint} {closed : Bool} {c : Curve Scalar}
    (there : c ∈ links first rest closed) : ∃ j ∈ first :: rest, ∃ k ∈ first :: rest, c = j.link k := by
  obtain ⟨i, below, rfl⟩ := List.mem_iff_getElem.mp there
  obtain ⟨j, k, atJ, atK, same⟩ := getElem?_links below
  rw [List.getElem?_eq_getElem below] at same
  exact ⟨j, List.mem_of_getElem? atJ, k, List.mem_of_getElem? atK, Option.some.inj same⟩

/-- The outline through joints that doubles can hold can be written. -/
theorem chain_held {all : List Joint} (held : ∀ j ∈ all, j.Held) (closed : Bool) :
    Outline.Held (chain all closed) := by
  intro command there
  cases all with
  | nil => cases there
  | cons first rest =>
    simp only [chain, through, List.cons_append, List.mem_cons, List.mem_append, List.mem_map] at there
    rcases there with rfl | ⟨c, member, rfl⟩ | closing
    · simpa [Command.coordinates] using (held first List.mem_cons_self).place
    · obtain ⟨j, hj, k, hk, rfl⟩ := mem_links member
      have after := (held j hj).after
      have before := (held k hk).before
      have place := (held k hk).place
      simpa [Curve.command, Joint.link, Command.coordinates] using
        ⟨after.1, after.2, before.1, before.2, place.1, place.2⟩
    · split at closing
      · obtain rfl := List.mem_singleton.mp closing
        simp [Command.coordinates]
      · cases closing

/-! ## Paths through valid anchors -/

/-- What the outline through a list of anchors has to be. -/
structure Chains (anchors : List (Option Anchor)) (closed : Bool) (outline : Outline Scalar)
    (curves : List (Curve Scalar)) : Prop where
  drawn : bezier anchors closed = .ok outline
  written : ∃ text, outlineText outline = .ok text
  /-- The anchors that are not valid make no difference. -/
  skipped : bezier (anchors.filter isValid) closed = .ok outline
  valid : (joints anchors).length = (anchors.filter isValid).length
  nothing : joints anchors = [] → outline = []
  single : ∀ only, joints anchors = [only] → outline = [.move only.place.1 only.place.2]
  /-- Two joints or more are connected by curves. -/
  several : ∀ first second rest, joints anchors = first :: second :: rest →
    outline = through first.place curves closed ∧ curvesOf outline = curves
  count : 2 ≤ (joints anchors).length →
    curves.length = if closed then (joints anchors).length else (joints anchors).length - 1
  /-- Each curve runs from a joint to the next one, along the handle after the one and the handle before the other. -/
  linked : ∀ i < curves.length, ∃ j k, (joints anchors)[i]? = some j ∧
    (joints anchors)[(i + 1) % (joints anchors).length]? = some k ∧
    curves[i]? = some ⟨j.place, j.after, k.before, k.place⟩

theorem bezier_chains {anchors : List (Option Anchor)} (held : ∀ a, some a ∈ anchors → a.Held) (closed : Bool) :
    ∃ outline curves, Chains anchors closed outline curves := by
  have drawn := bezier_eq_chain held closed
  have kept : ∀ a, some a ∈ anchors.filter isValid → a.Held := fun a there => held a (List.mem_of_mem_filter there)
  have skipped := bezier_eq_chain kept closed
  rw [joints_filter] at skipped
  have written := outlineText_eq_ok (chain_held (joints_held held) closed)
  -- No anchor, one anchor, or two and more, between which there are curves.
  rcases all : joints anchors with _ | ⟨first, _ | ⟨second, rest⟩⟩
  · refine ⟨_, [], drawn, written, skipped, length_joints anchors, ?_, ?_, ?_, ?_, ?_⟩
    all_goals simp [all, chain]
  · refine ⟨_, [], drawn, written, skipped, length_joints anchors, ?_, ?_, ?_, ?_, ?_⟩
    all_goals simp [all, chain, through, links]
  · have outline : chain (joints anchors) closed =
        through first.place (links first (second :: rest) closed) closed := by
      rw [all, chain_of_ne_nil (List.cons_ne_nil second rest)]
    refine ⟨_, links first (second :: rest) closed, drawn, written, skipped, length_joints anchors,
      ?_, ?_, ?_, ?_, ?_⟩
    · simp [all]
    · simp [all]
    · intro first' second' rest' same
      rw [all] at same
      obtain ⟨rfl, tail⟩ := List.cons.inj same
      rw [outline]
      exact ⟨rfl, curvesOf_through (connected_links closed) closed⟩
    · intro _
      rw [all, length_links]
      rfl
    · intro i below
      rw [all]
      exact getElem?_links below

end VectorGraph.Outline
