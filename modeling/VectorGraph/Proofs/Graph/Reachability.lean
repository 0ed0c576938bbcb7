import VectorGraph.Proofs.Graph.Acceptance

/-!
Reachability forwards and backwards.

The ancestors of a node are found from what feeds its sockets, the descendants from the list of the edges. In a graph
that was built up by its operations (`Graph.Built`) no socket has two edges, so both follow the same edges, and what is
upstream of a node is what the node is downstream of (`reachability_agrees`). The nodes may be looked at in any order:
every walk (`Turns`) comes to an end after at most two turns for each edge, and whatever the order, the same nodes have
been kept by then (`Exhausts`).

A node is its own ancestor if and only if it lies on a circuit, a path of edges back to its beginning that passes no
node twice.
-/
namespace VectorGraph.Graph

variable {g g' : Graph} {u v w : Label} {e : Edge} {es : List Edge}

/-! ## Graphs that were built up -/

/-- A graph that comes from the operations on graphs: empty, read from a document, or edited. -/
inductive Built : Graph → Prop where
  | empty : Built Graph.empty
  | read {document : Json} {g : Graph} (read : ofDocument document = .ok g) : Built g
  | edited {g : Graph} (built : Built g) (edit : Edit) : Built (g.edited edit)

theorem Wellformed.readNode {entry : Json} (h : g.Wellformed) (read : readNode g entry = .ok g') : g'.Wellformed := by
  have there : (entry.get? "id").isSome = true := by
    obtain ⟨_, found, -⟩ := bind_eq_ok.mp read
    exact isSome_of_required found
  rw [readNode_eq there] at read
  split at read
  · cases read
  · obtain ⟨kind, -, same⟩ := bind_eq_ok.mp read
    exact Except.ok.inj same ▸ h.addNode _

theorem Wellformed.readEdge {entry : Json} (h : g.Wellformed) (read : readEdge g entry = .ok g') : g'.Wellformed := by
  obtain ⟨_, -, rest⟩ := bind_eq_ok.mp read
  obtain ⟨_, -, added⟩ := bind_eq_ok.mp rest
  obtain ⟨takes, rfl⟩ := addEdge_eq_ok_iff.mp (mapError_eq_ok_iff.mp added)
  exact h.withEdge takes

/-- Whatever document is read, the graph is well formed. -/
theorem ofDocument_wellformed {document : Json} (read : ofDocument document = .ok g) : g.Wellformed := by
  obtain ⟨g₁, nodes, edges⟩ := bind_eq_ok.mp read
  have first : g₁.Wellformed := (foldlM_result (E := fun _ => True)
    (fun _ _ _ _ h read => h.readNode read) (fun _ _ _ _ _ => trivial) .empty).1 g₁ nodes
  exact (foldlM_result (E := fun _ => True)
    (fun _ _ _ _ h read => h.readEdge read) (fun _ _ _ _ _ => trivial) first).1 g edges

theorem Built.wellformed (h : g.Built) : g.Wellformed := by
  induction h with
  | empty => exact .empty
  | read read => exact ofDocument_wellformed read
  | @edited g _ edit ih =>
    unfold Graph.edited
    split
    · next made => exact ih.attempt made
    · exact ih

theorem Built.edits (h : g.Built) (edits : List Edit) : (edits.foldl Graph.edited g).Built := by
  induction edits generalizing g with
  | nil => exact h
  | cons edit edits ih => exact ih (h.edited edit)

/-! ## The same edges in both directions -/

theorem setSocket_of_new {sockets : List (Label × Label)} {socket source : Label}
    (new : ∀ i ∈ sockets, i.1.isSame socket = false) :
    setSocket sockets socket source = sockets ++ [(socket, source)] := by
  have absent : sockets.any (·.1.isSame socket) = false := List.any_eq_false.mpr fun i mem => by simp [new i mem]
  rw [setSocket, absent, if_neg Bool.false_ne_true]

/-- Edges to different sockets fill one socket each. -/
theorem foldl_setSocket (edges : List Edge) : ∀ sockets : List (Label × Label),
    (∀ i ∈ sockets, ∀ e ∈ edges, i.1.isSame e.targetSocket = false) →
    edges.Pairwise (fun old e => old.targetSocket.isSame e.targetSocket = false) →
    edges.foldl (fun sockets e => setSocket sockets e.targetSocket e.source) sockets =
      sockets ++ edges.map fun e => (e.targetSocket, e.source) := by
  induction edges with
  | nil => exact fun sockets _ _ => (List.append_nil sockets).symm
  | cons e rest ih =>
    intro sockets free single
    obtain ⟨first, later⟩ := List.pairwise_cons.mp single
    have free_e : ∀ i ∈ sockets, i.1.isSame e.targetSocket = false :=
      fun i mem => free i mem e List.mem_cons_self
    have free_rest : ∀ i ∈ sockets ++ [(e.targetSocket, e.source)], ∀ e' ∈ rest,
        i.1.isSame e'.targetSocket = false := by
      intro i mem e' mem'
      rcases List.mem_append.mp mem with old | new
      · exact free i old e' (List.mem_cons_of_mem _ mem')
      · rw [List.mem_singleton.mp new]
        exact first e' mem'
    rw [List.foldl_cons, setSocket_of_new free_e, ih _ free_rest later, List.append_assoc]
    rfl

namespace Wellformed

/-- Every edge to a node is an input of it, with a socket of its own. -/
theorem inputsOf_eq (h : g.Wellformed) (v : Label) :
    g.inputsOf v = (g.edges.filter (·.target == v)).map fun e => (e.targetSocket, e.source) := by
  have single : (g.edges.filter (·.target == v)).Pairwise
      fun old e => old.targetSocket.isSame e.targetSocket = false := by
    refine (List.pairwise_filter.mpr ?_)
    refine h.single.imp fun {old e} apart old_v e_v => apart ?_
    rw [beq_iff_eq.mp old_v, beq_iff_eq.mp e_v]
  exact foldl_setSocket _ [] (nofun) single

/-- The sources of a node are the nodes with an edge to it. -/
theorem feeds_eq_drives (h : g.Wellformed) : g.Feeds = g.Drives := by
  funext u v
  rw [eq_iff_iff, drives_iff, Feeds, sourcesOf, h.inputsOf_eq]
  simp [and_assoc, and_comm]

theorem mem_ancestors_iff (h : g.Wellformed) : u ∈ g.ancestors v ↔ Relation.TransGen g.Drives u v := by
  rw [mem_ancestors, h.feeds_eq_drives]

end Wellformed

/-! ## Paths and circuits -/

/-- The edges lead one after another from `u` to `v`, and there is at least one. -/
inductive Path (g : Graph) : Label → List Edge → Label → Prop where
  | last {e : Edge} (mem : e ∈ g.edges) : Path g e.source [e] e.target
  | step {e : Edge} {es : List Edge} {v : Label} (mem : e ∈ g.edges) (onward : Path g e.target es v) :
      Path g e.source (e :: es) v

/-- The edges lead back to their beginning and pass no node twice. -/
structure Circuit (g : Graph) (es : List Edge) : Prop where
  closed : ∃ v, g.Path v es v
  simple : (es.map (·.source)).Nodup

/-- The node lies on a circuit. -/
def OnCircuit (g : Graph) (v : Label) : Prop := ∃ es, g.Circuit es ∧ v ∈ es.map (·.source)

namespace Path

theorem transGen (h : g.Path u es v) : Relation.TransGen g.Drives u v := by
  induction h with
  | @last e mem => exact .single (drives_iff.mpr ⟨e, mem, rfl, rfl⟩)
  | @step e _ _ mem _ ih => exact .head (drives_iff.mpr ⟨e, mem, rfl, rfl⟩) ih

theorem source_mem (h : g.Path u es v) : u ∈ es.map (·.source) := by
  cases h <;> exact List.mem_cons_self

/-- From the source of one of its edges a path leads on. -/
theorem rest (h : g.Path u es v) (mem : e ∈ es) : ∃ later, later <:+ es ∧ g.Path e.source later v := by
  induction h with
  | @last e' mem' =>
    obtain rfl := List.mem_singleton.mp mem
    exact ⟨[e], List.suffix_refl _, .last mem'⟩
  | @step e' es' v' mem' onward ih =>
    rcases List.mem_cons.mp mem with rfl | mem
    · exact ⟨e :: es', List.suffix_refl _, .step mem' onward⟩
    · obtain ⟨later, suffix, path⟩ := ih mem
      exact ⟨later, suffix.trans (List.suffix_cons ..), path⟩

/-- A path leads to the source of each of its edges. -/
theorem reaches (h : g.Path u es v) (mem : e ∈ es) : Relation.ReflTransGen g.Drives u e.source := by
  induction h with
  | last => rw [List.mem_singleton.mp mem]
  | @step e' es' v' mem' onward ih =>
    rcases List.mem_cons.mp mem with rfl | mem
    · exact .refl
    · exact .head (drives_iff.mpr ⟨e', mem', rfl, rfl⟩) (ih mem)

/-- Where a path comes back to a node, what lies between can be left out. -/
theorem exists_simple (h : g.Path u es v) : ∃ direct, g.Path u direct v ∧ (direct.map (·.source)).Nodup := by
  induction h with
  | @last e mem => exact ⟨[e], .last mem, List.nodup_singleton _⟩
  | @step e es v mem onward ih =>
    obtain ⟨direct, path, distinct⟩ := ih
    by_cases again : e.source ∈ direct.map (·.source)
    · obtain ⟨e', mem', same⟩ := List.mem_map.mp again
      obtain ⟨later, suffix, path'⟩ := path.rest mem'
      exact ⟨later, same ▸ path', distinct.sublist (suffix.sublist.map _)⟩
    · exact ⟨e :: direct, .step mem path, List.nodup_cons.mpr ⟨again, distinct⟩⟩

end Path

theorem exists_path_iff : (∃ es, g.Path u es v) ↔ Relation.TransGen g.Drives u v := by
  constructor
  · exact fun ⟨es, path⟩ => path.transGen
  · intro reach
    induction reach using Relation.TransGen.head_induction_on with
    | single drives =>
      obtain ⟨e, mem, rfl, rfl⟩ := drives_iff.mp drives
      exact ⟨[e], .last mem⟩
    | head drives _ ih =>
      obtain ⟨e, mem, rfl, rfl⟩ := drives_iff.mp drives
      obtain ⟨es, path⟩ := ih
      exact ⟨e :: es, .step mem path⟩

/-- A node from which a path leads back to it lies on a circuit, and the other way round. -/
theorem onCircuit_iff : g.OnCircuit v ↔ Relation.TransGen g.Drives v v := by
  constructor
  · rintro ⟨es, ⟨⟨start, path⟩, -⟩, mem⟩
    obtain ⟨e, there, rfl⟩ := List.mem_map.mp mem
    obtain ⟨later, -, onward⟩ := path.rest there
    exact onward.transGen.trans_left (path.reaches there)
  · intro reach
    obtain ⟨es, path⟩ := exists_path_iff.mpr reach
    obtain ⟨direct, path, distinct⟩ := path.exists_simple
    exact ⟨direct, ⟨⟨v, path⟩, distinct⟩, path.source_mem⟩

/-! ## The walk in any order -/

/-- The nodes that are still to be looked at, and those that are kept. -/
structure Search where
  pending : List Label
  kept : List Label

/-- One of the pending nodes is taken. If it is kept already, that is all; if not, it is kept, and its neighbours are
pending. -/
inductive Turn (next : Label → List Label) : Search → Search → Prop where
  | pass {pending rest kept : List Label} {x : Label} (taken : pending.Perm (x :: rest)) (old : x ∈ kept) :
      Turn next ⟨pending, kept⟩ ⟨rest, kept⟩
  | keep {pending rest later kept : List Label} {x : Label} (taken : pending.Perm (x :: rest)) (new : x ∉ kept)
      (put : later.Perm (next x ++ rest)) : Turn next ⟨pending, kept⟩ ⟨later, x :: kept⟩

/-- So many turns, one after another. -/
inductive Turns (next : Label → List Label) : Nat → Search → Search → Prop where
  | none (s : Search) : Turns next 0 s s
  | more {n : Nat} {s t r : Search} (before : Turns next n s t) (turn : Turn next t r) : Turns next (n + 1) s r

/-- The search from a node, in whatever order it takes the pending nodes, has a turn left as long as nodes are pending,
ends after a bounded number of turns, and has then kept the given nodes, each once. -/
structure Exhausts (next : Label → List Label) (start : Label) (bound : Nat) (found : List Label) : Prop where
  goesOn : ∀ s : Search, s.pending ≠ [] → ∃ t, Turn next s t
  bounded : ∀ n s, Turns next n ⟨next start, []⟩ s → n ≤ bound
  ends : ∀ n s, Turns next n ⟨next start, []⟩ s → s.pending = [] → s.kept.Perm found
  reaches : ∃ n, Turns next n ⟨next start, []⟩ ⟨[], found⟩

section Walk

variable {next : Label → List Label} {ends : Edge → Label} {s t : Search} {n : Nat}

theorem exists_turn (h : s.pending ≠ []) : ∃ t, Turn next s t := by
  obtain ⟨pending, kept⟩ := s
  obtain ⟨x, rest, rfl⟩ := List.exists_cons_of_ne_nil h
  by_cases old : x ∈ kept
  · exact ⟨_, .pass (.refl _) old⟩
  · exact ⟨_, .keep (.refl _) old (.refl _)⟩

/-- How many turns are possible at most: one for each pending node and one for each edge whose end has not been
kept. -/
def Search.left (g : Graph) (ends : Edge → Label) (s : Search) : Nat :=
  s.pending.length + (g.openEdges ends s.kept).length

/-- A turn uses up at least one of those that are possible. -/
theorem Turn.left_lt (bound : ∀ v, (next v).length ≤ (g.edges.filter (ends · == v)).length) (h : Turn next s t) :
    t.left g ends < s.left g ends := by
  cases h with
  | pass taken old =>
    have := taken.length_eq
    simp only [Search.left, List.length_cons] at this ⊢
    omega
  | @keep pending rest later kept x taken new put =>
    have all := taken.length_eq
    have put := put.length_eq
    have few := bound x
    have fewer := @length_openEdges g x ends kept (by simpa using new)
    simp only [Search.left, List.length_cons, List.length_append] at all put ⊢
    omega

theorem Turns.left_le (bound : ∀ v, (next v).length ≤ (g.edges.filter (ends · == v)).length) (h : Turns next n s t) :
    n + t.left g ends ≤ s.left g ends := by
  induction h with
  | none s => omega
  | more _ turn ih =>
    have := turn.left_lt bound
    omega

/-- What a search keeps in mind: no node is kept twice, what is kept or pending is reached from the start, and what the
start or a kept node leads to is kept or pending. -/
structure Search.Sound (next : Label → List Label) (start : Label) (s : Search) : Prop where
  distinct : s.kept.Nodup
  reached : ∀ v, v ∈ s.kept ∨ v ∈ s.pending → Relation.TransGen (fun a b => a ∈ next b) v start
  first : ∀ v ∈ next start, v ∈ s.kept ∨ v ∈ s.pending
  closed : ∀ u ∈ s.kept, ∀ v ∈ next u, v ∈ s.kept ∨ v ∈ s.pending

theorem Search.Sound.outset (start : Label) : Search.Sound next start ⟨next start, []⟩ where
  distinct := .nil
  reached _ h := .single (h.resolve_left List.not_mem_nil)
  first _ h := .inr h
  closed := nofun

theorem Search.Sound.turn {start : Label} (h : s.Sound next start) (turn : Turn next s t) : t.Sound next start := by
  obtain ⟨distinct, reached, first, closed⟩ := h
  cases turn with
  | @pass pending rest kept x taken old =>
    -- Nothing is lost: what was kept or pending still is.
    have onward : ∀ v, v ∈ kept ∨ v ∈ pending → v ∈ kept ∨ v ∈ rest := by
      rintro v (there | there)
      · exact .inl there
      · rcases List.mem_cons.mp (taken.mem_iff.mp there) with rfl | later
        · exact .inl old
        · exact .inr later
    refine ⟨distinct, fun v hv => reached v ?_, fun v hv => onward v (first v hv),
      fun u hu v hv => onward v (closed u hu v hv)⟩
    exact hv.imp_right fun later => taken.mem_iff.mpr (List.mem_cons_of_mem _ later)
  | @keep pending rest later kept x taken new put =>
    have x_reached := reached x (.inr (taken.mem_iff.mpr List.mem_cons_self))
    have onward : ∀ v, v ∈ kept ∨ v ∈ pending → v ∈ x :: kept ∨ v ∈ later := by
      rintro v (there | there)
      · exact .inl (List.mem_cons_of_mem _ there)
      · rcases List.mem_cons.mp (taken.mem_iff.mp there) with rfl | there
        · exact .inl List.mem_cons_self
        · exact .inr (put.mem_iff.mpr (List.mem_append_right _ there))
    refine ⟨List.nodup_cons.mpr ⟨new, distinct⟩, fun v hv => ?_, fun v hv => onward v (first v hv), fun u hu v hv => ?_⟩
    · rcases hv with hv | hv
      · rcases List.mem_cons.mp hv with rfl | hv
        · exact x_reached
        · exact reached v (.inl hv)
      · rcases List.mem_append.mp (put.mem_iff.mp hv) with hv | hv
        · exact .head hv x_reached
        · exact reached v (.inr (taken.mem_iff.mpr (List.mem_cons_of_mem _ hv)))
    · rcases List.mem_cons.mp hu with rfl | hu
      · exact .inr (put.mem_iff.mpr (List.mem_append_left _ hv))
      · exact onward v (closed u hu v hv)

theorem Search.Sound.turns {start : Label} (h : s.Sound next start) (turns : Turns next n s t) :
    t.Sound next start := by
  induction turns with
  | none => exact h
  | more _ turn ih => exact (ih h).turn turn

/-- When nothing is pending, what can be reached has been kept. -/
theorem Search.Sound.mem_kept_iff {start : Label} (h : s.Sound next start) (done : s.pending = []) :
    v ∈ s.kept ↔ Relation.TransGen (fun a b => a ∈ next b) v start := by
  have kept : ∀ w, w ∈ s.kept ∨ w ∈ s.pending → w ∈ s.kept := by
    rw [done]
    exact fun w hw => hw.resolve_right List.not_mem_nil
  refine ⟨fun there => h.reached v (.inl there), fun path => ?_⟩
  induction path using Relation.TransGen.head_induction_on with
  | single step => exact kept _ (h.first _ step)
  | head step _ ih => exact kept _ (h.closed _ ih _ step)

/-- With enough fuel, the walk is a search that takes the node put last. -/
theorem walk_turns (bound : ∀ v, (next v).length ≤ (g.edges.filter (ends · == v)).length) (fuel : Nat) :
    ∀ s t : Search, Turns next n s t → t.left g ends < fuel →
      ∃ m, Turns next m s ⟨[], walk next fuel t.pending t.kept⟩ := by
  induction fuel generalizing n with
  | zero => exact fun s t _ h => absurd h (Nat.not_lt_zero _)
  | succ fuel ih =>
    intro s t before enough
    obtain ⟨pending, kept⟩ := t
    cases pending with
    | nil => exact ⟨n, before⟩
    | cons x rest =>
      unfold walk
      split
      · next old =>
        have turn : Turn next ⟨x :: rest, kept⟩ ⟨rest, kept⟩ := .pass (.refl _) (List.contains_iff_mem.mp old)
        exact ih s ⟨rest, kept⟩ (.more before turn) (Nat.lt_of_lt_of_le (turn.left_lt bound) (Nat.le_of_lt_succ enough))
      · next new =>
        have turn : Turn next ⟨x :: rest, kept⟩ ⟨next x ++ rest, x :: kept⟩ :=
          .keep (.refl _) (by simpa using new) (.refl _)
        exact ih s ⟨next x ++ rest, x :: kept⟩ (.more before turn)
          (Nat.lt_of_lt_of_le (turn.left_lt bound) (Nat.le_of_lt_succ enough))

/-- In whatever order nodes are taken, what is kept in the end is what the walk collects. -/
theorem reach_exhausts (bound : ∀ v, (next v).length ≤ (g.edges.filter (ends · == v)).length) (start : Label) :
    Exhausts next start (2 * g.edges.length) (g.reach next start) := by
  have few : Search.left g ends ⟨next start, []⟩ ≤ 2 * g.edges.length := by
    have neighbours := Nat.le_trans (bound start) (List.length_filter_le _ _)
    have all : (g.openEdges ends []).length ≤ g.edges.length := List.length_filter_le _ _
    simp only [Search.left]
    omega
  obtain ⟨m, whole⟩ := walk_turns bound (2 * g.edges.length + 1) _ _ (.none ⟨next start, []⟩) (Nat.lt_succ_of_le few)
  refine ⟨fun s => exists_turn, fun n s turns => ?_, fun n s turns done => ?_, m, whole⟩
  · have := turns.left_le bound
    omega
  · have sound := (Search.Sound.outset start).turns turns
    have sound' := (Search.Sound.outset start).turns whole
    refine (List.perm_ext_iff_of_nodup sound.distinct sound'.distinct).mpr fun v => ?_
    rw [sound.mem_kept_iff done, sound'.mem_kept_iff rfl]

end Walk

/-! ## Both directions -/

/-- The walks in both directions come to an end, whatever the order of their turns. The ancestors of a node are the
nodes from which a path leads to it; a node is downstream of another if and only if the other is upstream of it; and it
is its own ancestor, or its own descendant, if and only if it lies on a circuit. -/
theorem reachability_agrees (built : g.Built) (a b : Label) :
    Exhausts g.sourcesOf b (2 * g.edges.length) (g.ancestors b) ∧
    Exhausts g.outputsOf a (2 * g.edges.length) (g.descendants a) ∧
    (a ∈ g.ancestors b ↔ ∃ es, g.Path a es b) ∧
    (b ∈ g.descendants a ↔ a ∈ g.ancestors b) ∧
    (a ∈ g.ancestors a ↔ a ∈ g.descendants a) ∧
    (a ∈ g.descendants a ↔ g.OnCircuit a) := by
  have h := built.wellformed
  have outputs : ∀ v, (g.outputsOf v).length ≤ (g.edges.filter (·.source == v)).length := fun v => by
    rw [outputsOf, List.length_map]
  refine ⟨reach_exhausts (length_sourcesOf g) b, reach_exhausts outputs a, ?_, ?_, ?_, ?_⟩
  · rw [h.mem_ancestors_iff, exists_path_iff]
  · rw [h.mem_ancestors_iff, mem_descendants]
  · rw [h.mem_ancestors_iff, mem_descendants]
  · rw [mem_descendants, onCircuit_iff]

/-- Two unions that feed each other, and a third one that the second of them feeds. -/
def ringAndTail : Graph :=
  [Edit.addNode ⟨.text "p", .union, []⟩, .addNode ⟨.text "q", .union, []⟩, .addNode ⟨.text "t", .union, []⟩,
    .connect (.text "p") (.text "q") (.text "a") (.text "out"),
    .connect (.text "q") (.text "p") (.text "a") (.text "out"),
    .connect (.text "q") (.text "t") (.text "b") (.text "out")].foldl edited Graph.empty

theorem built_ringAndTail : ringAndTail.Built := Built.empty.edits _

/-- The unions of the ring are upstream of themselves and of the tail, which is upstream of nothing. -/
theorem reachability_agrees_ring : ringAndTail.Built ∧ ringAndTail.OnCircuit (.text "p") ∧
    .text "t" ∈ ringAndTail.descendants (.text "p") ∧ ¬ ringAndTail.OnCircuit (.text "t") := by
  obtain ⟨-, -, -, down, own, circuit⟩ := reachability_agrees built_ringAndTail (.text "p") (.text "t")
  obtain ⟨-, -, -, -, -, tail⟩ := reachability_agrees built_ringAndTail (.text "t") (.text "t")
  exact ⟨built_ringAndTail, circuit.mp (own.mp (by decide)), down.mpr (by decide), mt tail.mpr (by decide)⟩

end VectorGraph.Graph
