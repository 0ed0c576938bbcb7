import VectorGraph.Proofs.Engine.Locality
import VectorGraph.Proofs.Graph.Dependents
import VectorGraph.Proofs.Markup.Numbered

/-!
Parameters that are set while a pass is running.

A pass reads the parameters of a node at the moment it looks the node up. Setting parameters of a node that the pass has
decided is nothing to it, while an edit of any other node is seen once the pass gets there. So the pass is one over a
single graph (`sees_one_graph`): the graph at the outset with the early edits, those that came before their node was
decided, and without the late ones (`Engine.Meanwhile`). That an early edit does not wait for the next pass is shown by
`edit_overtakes`.
-/
namespace VectorGraph

/-! ## Graphs that differ in parameters only -/

namespace Graph

variable {g g' h : Graph} {id v : Label} {updates : Fields}

/-- The graphs have the same edges, and nodes of the same kinds. -/
structure SameShape (g h : Graph) : Prop where
  edges : h.edges = g.edges
  kinds : ∀ v, (h.node? v).map (·.kind) = (g.node? v).map (·.kind)

namespace SameShape

theorem refl (g : Graph) : g.SameShape g := ⟨rfl, fun _ => rfl⟩

theorem symm (s : g.SameShape h) : h.SameShape g := ⟨s.edges.symm, fun v => (s.kinds v).symm⟩

theorem trans {f : Graph} (s : f.SameShape g) (t : g.SameShape h) : f.SameShape h :=
  ⟨t.edges.trans s.edges, fun v => (t.kinds v).trans (s.kinds v)⟩

theorem hasNode (s : g.SameShape h) (v : Label) : h.hasNode v = g.hasNode v := by
  rw [hasNode_eq, hasNode_eq, ← Option.isSome_map, s.kinds v, Option.isSome_map]

theorem inputsOf (s : g.SameShape h) (v : Label) : h.inputsOf v = g.inputsOf v := by
  rw [Graph.inputsOf, Graph.inputsOf, s.edges]

theorem fedAlike (s : g.SameShape h) (target : Label) : g.FedAlike h target where
  hasNode v _ := s.hasNode v
  sources v _ := by rw [sourcesOf, sourcesOf, s.inputsOf v]

end SameShape

theorem node?_updateParams (h : g.updateParams id updates = some g') (v : Label) :
    g'.node? v = (g.node? v).map (setParams id updates) := by
  unfold updateParams at h
  split at h
  · obtain rfl := Option.some.inj h
    exact find?_setParams g.nodes id updates v
  · cases h

theorem setParams_kind (n : Node) : (setParams id updates n).kind = n.kind := by
  unfold setParams
  split <;> rfl

theorem updateParams_sameShape (h : g.updateParams id updates = some g') : g.SameShape g' := by
  refine ⟨(updateParams_frame h).1, fun v => ?_⟩
  rw [node?_updateParams h, Option.map_map]
  congr 1
  funext n
  exact setParams_kind n

/-- What can be set in one graph can be set in another one of the same shape. -/
theorem SameShape.updateParams (s : g.SameShape h) (edited : g.updateParams id updates = some g') :
    ∃ h', h.updateParams id updates = some h' := by
  unfold Graph.updateParams at edited ⊢
  rw [s.hasNode]
  by_cases there : g.hasNode id = true
  · exact ⟨_, if_pos there⟩
  · rw [if_neg there] at edited
    cases edited

end Graph

namespace Engine

variable {e e' : Engine} {replies : Replies} {draws : Draws} {k base n : Nat} {stock : List (CacheKey × Fragment)}
  {p : Pass} {target : Label} {resolution : Json} {salt : String} {g h seen : Graph}

/-! ## A pass and edits -/

/-- From `e` on, steps have been made and parameters have been set, in any order, and have led to the state. The graph is
that of `e` with the edits of nodes that the pass at place `k` had not decided when they were made. -/
inductive Meanwhile (replies : Replies) (k : Nat) (e : Engine) : Graph → Engine → Prop where
  | outset : Meanwhile replies k e e.graph e
  | step {seen : Graph} {e' : Engine} {event : Event} {turn : Turn} (before : Meanwhile replies k e seen e')
      (step : e'.step event = some turn) (allowed : event.Allowed replies e') : Meanwhile replies k e seen turn.engine
  | early {seen seen' g : Graph} {e' : Engine} {id : Label} {updates : Fields} (before : Meanwhile replies k e seen e')
      (undecided : ¬ e'.Decided k id) (edited : e'.graph.updateParams id updates = some g)
      (seen_ : seen.updateParams id updates = some seen') : Meanwhile replies k e seen' (e'.over g)
  | late {seen g : Graph} {e' : Engine} {id : Label} {updates : Fields} (before : Meanwhile replies k e seen e')
      (decided : e'.Decided k id) (edited : e'.graph.updateParams id updates = some g) :
      Meanwhile replies k e seen (e'.over g)

theorem Meanwhile.steps {m : Nat} {e'' : Engine} (before : Meanwhile replies k e seen e')
    (run : Steps replies m e' e'') : Meanwhile replies k e seen e'' := by
  induction run with
  | none _ => exact before
  | more _ step allowed ih => exact .step (ih before) step allowed

theorem Decided.grows {v : Label} (h : e.Decided k v) (grows : Grows e e') : e'.Decided k v := by
  obtain ⟨p, x, pass, there, decided⟩ := h
  obtain ⟨q, pass', later⟩ := grows.passes k p pass
  obtain ⟨y, there', onward⟩ := later.tasks v x there
  refine ⟨q, y, pass', there', ?_⟩
  cases x with
  | fresh => cases decided
  | gathering needs => cases decided
  | waiting i =>
    obtain rfl | ⟨c, r, -, -, rfl⟩ := onward <;> trivial
  | finished r =>
    obtain rfl := onward
    trivial

/-- While a pass runs alone, the subject of a step has not been decided. -/
theorem Solo.undecided (solo : Solo replies draws k base stock p e) {event : Event} {turn : Turn} {index : Nat}
    {v : Label} (step : e.step event = some turn) (subject : event.subject? = some (index, v)) :
    index = k ∧ ¬ e.Decided k v := by
  obtain ⟨own, could⟩ := solo.subject step subject
  refine ⟨own, fun ⟨q, x, pass, there, decided⟩ => ?_⟩
  obtain rfl := Option.some.inj (pass.symm.trans solo.underway.pass)
  obtain fresh | ⟨needs, gathering⟩ := could
  · rw [fresh] at there
    obtain rfl := Option.some.inj there
    cases decided
  · rw [gathering] at there
    obtain rfl := Option.some.inj there
    cases decided

/-- What is true of a pass and the edits meanwhile. The graph that it sees is as the present one where nothing has been
decided yet. Over every graph that is as this one where something has been decided, steps alone lead to the same state. -/
structure Sees (replies : Replies) (k : Nat) (e : Engine) (seen : Graph) (e' : Engine) : Prop where
  outset : e.graph.SameShape seen
  shape : e'.graph.SameShape seen
  present : ∀ v, ¬ e'.Decided k v → seen.node? v = e'.graph.node? v
  replay : ∀ h, seen.SameShape h → (∀ v, e'.Decided k v → h.node? v = seen.node? v) →
    ∃ m, Steps replies m (e.over h) (e'.over h)

namespace Sees

/-- A step of the pass. -/
theorem step (sees : Sees replies k e seen e') (solo : Solo replies draws k base stock p (e'.over seen)) {event : Event}
    {turn : Turn} (step : e'.step event = some turn) (allowed : event.Allowed replies e') :
    Sees replies k e seen turn.engine := by
  have undecided : ∀ {index v}, event.subject? = some (index, v) → index = k ∧ ¬ e'.Decided k v := by
    intro index v subject
    have able : ((e'.over seen).step event).isSome = true := by rw [isSome_step_over, step]; rfl
    obtain ⟨turn', step'⟩ := Option.isSome_iff_exists.mp able
    exact solo.undecided step' subject
  -- over a graph of this shape the step is the same, provided that what it decides has the same parameters
  have again : ∀ {h}, seen.SameShape h → (∀ v, turn.engine.Decided k v → h.node? v = seen.node? v) →
      (e'.over h).step event = some (turn.over h) := by
    intro h shape same
    refine step_over step fun index v subject => ⟨⟨?_, ?_⟩, fun decided => ?_⟩
    · exact (shape.kinds v).trans (sees.shape.kinds v)
    · exact (shape.inputsOf v).trans (sees.shape.inputsOf v)
    · obtain ⟨rfl, open_⟩ := undecided subject
      rw [paramsOf, paramsOf, over_graph, same v decided, sees.present v open_]
  have kept : ∀ v, e'.Decided k v → turn.engine.Decided k v := by
    intro v decided
    obtain ⟨_, _, -, -, grows, -⟩ := solo.move (move_of_step (again (.refl seen) fun _ _ => rfl) allowed)
    have later : ((turn.over seen).engine).Decided k v := Decided.grows (e := e'.over seen) decided grows
    exact later
  have graph := step_graph step
  refine ⟨sees.outset, graph ▸ sees.shape, fun v open_ => ?_, fun h shape same => ?_⟩
  · rw [graph]
    exact sees.present v fun decided => open_ (kept v decided)
  · obtain ⟨m, steps⟩ := sees.replay h shape fun v decided => same v (kept v decided)
    exact ⟨m + 1, .more steps (again shape same) allowed⟩

variable {id : Label} {updates : Fields} {seen' : Graph}

/-- An edit of a node that has not been decided. -/
theorem early (sees : Sees replies k e seen e') (undecided : ¬ e'.Decided k id)
    (edited : e'.graph.updateParams id updates = some g) (seen_ : seen.updateParams id updates = some seen') :
    Sees replies k e seen' (e'.over g) := by
  have shape := Graph.updateParams_sameShape seen_
  refine ⟨sees.outset.trans shape, ?_, fun v open_ => ?_, fun h shape' same => ?_⟩
  · exact (Graph.updateParams_sameShape edited).symm.trans (sees.shape.trans shape)
  · rw [over_graph, Graph.node?_updateParams seen_, Graph.node?_updateParams edited, sees.present v open_]
  · refine sees.replay h (shape.trans shape') fun v decided => ?_
    have other : v ≠ id := by
      rintro rfl
      exact undecided decided
    rw [same v decided, (Graph.updateParams_frame seen_).2 v other]

/-- An edit of a node that has been decided. -/
theorem late (sees : Sees replies k e seen e') (decided : e'.Decided k id)
    (edited : e'.graph.updateParams id updates = some g) : Sees replies k e seen (e'.over g) := by
  refine ⟨sees.outset, (Graph.updateParams_sameShape edited).symm.trans sees.shape, fun v open_ => ?_, sees.replay⟩
  have other : v ≠ id := by
    rintro rfl
    exact open_ decided
  rw [over_graph, (Graph.updateParams_frame edited).2 v other, sees.present v open_]

end Sees

/-- Whatever has been done meanwhile, the pass sees one graph. -/
theorem Meanwhile.sees (alone : ∀ h, e.graph.SameShape h → ∃ draws p, Solo replies draws k base stock p (e.over h))
    (run : Meanwhile replies k e seen e') : Sees replies k e seen e' := by
  induction run with
  | outset => exact ⟨.refl _, .refl _, fun _ _ => rfl, fun h _ _ => ⟨0, .none _⟩⟩
  | step before step allowed ih =>
    obtain ⟨m, steps⟩ := ih.replay _ (.refl _) fun _ _ => rfl
    obtain ⟨draws, p, solo⟩ := alone _ ih.outset
    obtain ⟨_, _, solo', -⟩ := solo.onward steps
    exact ih.step solo' step allowed
  | early before undecided edited seen_ ih => exact ih.early undecided edited seen_
  | late before decided edited ih => exact ih.late decided edited

theorem started_graph {turn : Turn} (started : e.start n target resolution salt = .ok turn) :
    turn.engine.graph = e.graph := by
  obtain ⟨p, -, s⟩ := started_of_start started
  obtain ⟨log, state⟩ := s.state
  rw [state]

theorem Steps.graph {m : Nat} (run : Steps replies m e e') : e'.graph = e.graph := by
  induction run with
  | none _ => rfl
  | more _ step _ ih => rw [step_graph step, ih]

/-- A pass is started where nothing goes on, and parameters are set while it is running. What it comes to is what a pass
comes to, step by step, that is started over a graph with the early edits in it and that nobody disturbs. -/
theorem sees_one_graph {settings : Settings} {canRender : Bool} {digest : Digest} {turn : Turn}
    (run : Reaches anything (blank settings canRender digest) e) (rest : ∀ event, e.step event = none)
    (there : n < e.evaluators.length) (started : e.start n target resolution salt = .ok turn)
    (disturbed : Meanwhile anything.replies e.passes.length turn.engine seen e') :
    e.graph.SameShape seen ∧ ∃ turn' m, (e.over seen).start n target resolution salt = .ok turn' ∧
      Steps anything.replies m turn'.engine (e'.over seen) := by
  obtain ⟨atRest, -⟩ := run.atRest rest anything_replies
  have graph := started_graph started
  have starts : ∀ h, e.graph.SameShape h → (e.over h).start n target resolution salt = .ok (turn.over h) := by
    intro h shape
    rw [start_over (shape.fedAlike target).checkAcyclic, started]
    rfl
  have alone : ∀ h, turn.engine.graph.SameShape h → ∃ draws p, Solo anything.replies draws e.passes.length
      e.computations.length (e.cacheOf n).entries p (turn.engine.over h) := by
    intro h shape
    obtain ⟨calm, ⟨draws, ledger⟩, -, -⟩ := atRest.edit h
    obtain ⟨p, -, s⟩ := started_of_start (starts h (graph ▸ shape))
    exact ⟨draws, p, calm.solo ledger there s⟩
  have sees := disturbed.sees alone
  obtain ⟨m, steps⟩ := sees.replay seen (.refl seen) fun _ _ => rfl
  exact ⟨graph ▸ sees.outset, _, m, starts seen (graph ▸ sees.outset), steps⟩

/-! ## An edit that does not wait -/

/-- When inputs are taken one by one, a source that has not been finished is asked for. -/
theorem takeIn_unfinished {v socket source : Label} {needs : Gathering} {rest : List (Label × Label)}
    (unfinished : p.result? source = none) : (e.takeIn k p v needs ((socket, source) :: rest)).engine =
      e.setPass k ((p.set v (.gathering { needs with pending := (socket, source) :: rest })).ask source) := by
  rw [takeIn, unfinished]

/-- A node that takes its inputs one by one begins by asking for the first of them, if nobody has asked for it. -/
theorem after_begin_asks {v socket source : Label} {node : Node} {rest : List (Label × Label)}
    (pass : e.passes[k]? = some p) (fresh : p.progress? v = some .fresh) (known : e.graph.node? v = some node)
    (oneByOne : e.settings.concurrentSiblings = false) (sorted : e.sortedInputs v = (socket, source) :: rest)
    (unknown : p.progress? source = none) :
    e.after (.begin k v) = e.setPass k (((visit p v).set v
      (.gathering ⟨node.kind, (socket, source) :: rest, (socket, source) :: rest⟩)).ask source) := by
  have unfinished : (visit p v).result? source = none := by
    have same : (visit p v).progress? source = p.progress? source := rfl
    rw [Pass.result?, same, unknown]
  have begun : e.begin k p v = e.takeIn k (visit p v) v
      ⟨node.kind, (socket, source) :: rest, (socket, source) :: rest⟩ ((socket, source) :: rest) := by
    simp [begin, known, oneByOne, sorted, visit]
  simp [after, step, pass, fresh, begun, takeIn_unfinished unfinished]

/-- An engine whose graph puts one colour, as a back-end has painted it, over another one. Inputs are taken one by one. -/
def glimpsed : Engine :=
  { (blank { concurrentSiblings := false } true Studio.fullDigest).addEvaluator none with
    graph :=
      { nodes := [⟨.text "u", .union, []⟩, ⟨.text "p", .polar, []⟩, ⟨.text "c", .color, []⟩, ⟨.text "d", .color, []⟩]
        edges :=
          [⟨.text "c", .text "out", .text "p", .text "in"⟩, ⟨.text "p", .text "out", .text "u", .text "a"⟩,
            ⟨.text "d", .text "out", .text "u", .text "b"⟩] } }

/-- The graph in which the other colour has less red. -/
def glimpsedEdited : Graph :=
  { glimpsed.graph with
    nodes :=
      [⟨.text "u", .union, []⟩, ⟨.text "p", .polar, []⟩, ⟨.text "c", .color, []⟩,
        ⟨.text "d", .color, [("r", .whole 0)]⟩] }

/-- A pass for the union is open. -/
def glimpsedOpen : Engine := glimpsed.opened (.text "u") (.whole 8) "s"

/-- The inputs of the union. -/
def glimpsedInputs : List (Label × Label) := [(.text "a", .text "p"), (.text "b", .text "d")]

/-- The union has asked for the first of them. -/
def glimpsedBegun : Engine :=
  glimpsedOpen.setPass 0 {
    evaluator := 0
    target := .text "u"
    resolution := .pixels 8
    ids := ⟨"s", 0⟩
    tasks := [(.text "u", .gathering ⟨.union, glimpsedInputs, glimpsedInputs⟩), (.text "p", .fresh)]
    visited := [.text "u"] }

/-- What happens until the back-end is asked to paint. -/
def glimpsedBefore : List Event :=
  [.begin 0 (.text "p"), .begin 0 (.text "c"), .run 0, .deliver 0 (.text "c"), .proceed 0 (.text "p"), .run 1]

/-- The back-end has been asked to paint, and the other colour has not been reached. -/
def glimpsedAwaiting : Engine := glimpsedBefore.foldl after glimpsedBegun

/-- What happens from the reply on. The back-end fails, so that the colour is taken as it is. -/
def glimpsedAfter : List Event :=
  [.paint 1 (.error .notConfigured), .deliver 0 (.text "p"), .proceed 0 (.text "u"), .begin 0 (.text "d"), .run 2,
    .deliver 0 (.text "d"), .proceed 0 (.text "u"), .run 3, .deliver 0 (.text "u"), .close 0]

/-- The union of two squares of the side eight with these fills. -/
def glimpsedUnion (a b : String) : Fragment where
  markup := "<g><rect x=\"0\" y=\"0\" width=\"8\" height=\"8\" fill=\"" ++ a ++
    "\"/><rect x=\"0\" y=\"0\" width=\"8\" height=\"8\" fill=\"" ++ b ++ "\"/></g>"
  defs := []

theorem glimpsedOpen_begins : glimpsedOpen.after (.begin 0 (.text "u")) = glimpsedBegun := by
  have sorted : glimpsedOpen.sortedInputs (.text "u") = glimpsedInputs := by
    have inputs : glimpsedOpen.graph.inputsOf (.text "u") = glimpsedInputs := by decide +kernel
    rw [sortedInputs, inputs]
    exact List.mergeSort_of_pairwise (by decide +kernel)
  let pass : Pass :=
    { evaluator := 0, target := .text "u", resolution := .pixels 8, ids := ⟨"s", 0⟩, tasks := [(.text "u", .fresh)] }
  have opened : glimpsedOpen.passes[0]? = some pass := by with_unfolding_all rfl
  exact after_begin_asks opened rfl rfl rfl sorted rfl

/-- The engine when the pass is closed and nobody has set anything. -/
def glimpsedUndisturbed : Engine := glimpsedAfter.foldl after glimpsedAwaiting

/-- The engine when the pass is closed and the other colour has been given less red while the back-end was painting. -/
def glimpsedDisturbed : Engine := glimpsedAfter.foldl after (glimpsedAwaiting.over glimpsedEdited)

/-- While the back-end is painting a parameter is set of a node that has not been reached. The edit does not wait for the
next pass: the pass comes to another fragment than it would have come to, whatever the names of the ids. -/
theorem edit_overtakes : ∃ turn m,
    glimpsed.start 0 (.text "u") (.whole 8) "s" = .ok turn ∧
    Steps anything.replies m turn.engine glimpsedAwaiting ∧
    (glimpsedAwaiting.step (.paint 1 (.error .notConfigured))).isSome = true ∧
    glimpsedAwaiting.graph.updateParams (.text "d") [("r", .whole 0)] = some glimpsedEdited ∧
    Steps anything.replies (m + glimpsedAfter.length) turn.engine glimpsedUndisturbed ∧
    glimpsedUndisturbed.yield? 0 = some (glimpsedUnion "rgb(255,255,255)" "rgb(255,255,255)") ∧
    Meanwhile anything.replies 0 turn.engine glimpsedEdited glimpsedDisturbed ∧
    glimpsedDisturbed.yield? 0 = some (glimpsedUnion "rgb(255,255,255)" "rgb(0,255,255)") ∧
    (glimpsedUnion "rgb(255,255,255)" "rgb(0,255,255)").numbered ≠
      (glimpsedUnion "rgb(255,255,255)" "rgb(255,255,255)").numbered := by
  have acyclic : glimpsed.graph.checkAcyclic (.text "u") = .ok () := by with_unfolding_all rfl
  obtain ⟨turn, started⟩ := start_ok (n := 0) "s" (show resolutionOf (.whole 8) = .ok (.pixels 8) from rfl) acyclic
  have opened : glimpsedOpen = turn.engine := by rw [glimpsedOpen, Engine.opened, started]
  have begun : Steps anything.replies (0 + 1) turn.engine glimpsedBegun := by
    have able : turn.engine.possible [.begin 0 (.text "u")] = true := by
      rw [← opened]
      decide +kernel
    have one := (Steps.none turn.engine).follow (fun _ _ => trivial) [.begin 0 (.text "u")] able
    rw [← glimpsedOpen_begins, opened]
    exact one
  have awaiting := begun.follow (fun _ _ => trivial) glimpsedBefore (by decide +kernel)
  have undisturbed := awaiting.follow (fun _ _ => trivial) glimpsedAfter (by decide +kernel)
  -- the graph is the one of the outset until the edit
  have outset : turn.engine.graph = glimpsed.graph := started_graph started
  have edited : turn.engine.graph.updateParams (.text "d") [("r", .whole 0)] = some glimpsedEdited := by
    rw [outset]
    rfl
  have edited' : glimpsedAwaiting.graph.updateParams (.text "d") [("r", .whole 0)] = some glimpsedEdited := by
    have same : glimpsedAwaiting.graph = turn.engine.graph := awaiting.graph
    rw [same, edited]
  have unreached : ¬ glimpsedAwaiting.Decided 0 (.text "d") := by
    have unasked : ((glimpsedAwaiting.passes[0]?).bind (·.progress? (.text "d"))).isNone = true := by decide +kernel
    rintro ⟨p, x, pass, there, -⟩
    rw [pass, Option.bind_some, there] at unasked
    cases unasked
  have disturbed : Meanwhile anything.replies 0 turn.engine glimpsedEdited glimpsedDisturbed :=
    ((Meanwhile.outset.steps awaiting).early unreached edited' edited).steps
      ((Steps.none _).follow (fun _ _ => trivial) glimpsedAfter (by decide +kernel))
  have plain : ∀ {a b : String}, '_' ∉ (glimpsedUnion a b).markup.toList →
      (glimpsedUnion a b).numbered = glimpsedUnion a b := fun h => Fragment.numbered_plain rfl h
  refine ⟨turn, _, started, awaiting, by decide +kernel, edited', undisturbed, by decide +kernel, disturbed,
    by decide +kernel, ?_⟩
  rw [plain (by decide +kernel), plain (by decide +kernel)]
  decide +kernel

end Engine

end VectorGraph
