import VectorGraph.Proofs.Engine.Reading
import VectorGraph.Proofs.Engine.Resumed
import VectorGraph.Proofs.Graph.Ancestry

/-!
A pass depends on the ancestry of its target alone.

A pass that runs alone asks for nodes of the ancestry of its target only, so every step looks at such a node
(`Solo.gives`). Over a graph that agrees on this ancestry the same events are possible, one after another, and lead to
the same states (`Solo.follows`). Together with what the check for cycles gives, evaluations of one target over two such
graphs start alike, go on alike in whatever order their steps come, and end alike (`evaluates_locally`).
-/
namespace VectorGraph.Engine

variable {e e' : Engine} {replies : Replies} {draws : Draws} {k base n : Nat} {stock : List (CacheKey × Fragment)}
  {p : Pass} {target : Label} {resolution : Json} {salt : String} {g h : Graph}

/-! ## The subject of a step -/

/-- An event with a subject is possible where the subject begins, or goes on since what it awaits is finished. -/
theorem subject_of_step {event : Event} {turn : Turn} {index : Nat} {v : Label} (step : e.step event = some turn)
    (subject : event.subject? = some (index, v)) : ∃ p x, e.passes[index]? = some p ∧ p.progress? v = some x ∧
      (x = .fresh ∨ ∃ needs, x = .gathering needs ∧ needs.isReady e.settings.concurrentSiblings p = true) := by
  cases event with
  | begin index' v' =>
    obtain ⟨rfl, rfl⟩ := Prod.mk.inj (Option.some.inj subject)
    obtain ⟨p, pass, step⟩ := Option.bind_eq_some_iff.mp step
    split at step
    · next fresh => exact ⟨p, .fresh, pass, fresh, .inl rfl⟩
    · cases step
  | proceed index' v' =>
    obtain ⟨rfl, rfl⟩ := Prod.mk.inj (Option.some.inj subject)
    obtain ⟨p, pass, step⟩ := Option.bind_eq_some_iff.mp step
    split at step
    · next needs gathering =>
      split at step
      · next ready => exact ⟨p, _, pass, gathering, .inr ⟨needs, rfl, ready⟩⟩
      · cases step
    · cases step
  | _ => cases subject

/-- While a pass runs alone, the subject of every step is one of its nodes, and has not been looked up. -/
theorem Solo.subject (solo : Solo replies draws k base stock p e) {event : Event} {turn : Turn} {index : Nat}
    {v : Label} (step : e.step event = some turn) (subject : event.subject? = some (index, v)) :
    index = k ∧ (p.progress? v = some .fresh ∨ ∃ needs, p.progress? v = some (.gathering needs)) := by
  obtain ⟨q, x, pass, there, could⟩ := subject_of_step step subject
  rcases could with rfl | ⟨needs, rfl, ready⟩
  · obtain ⟨rfl, rfl⟩ := solo.underway.here pass there (fun _ => nofun) fun _ => nofun
    exact ⟨rfl, .inl there⟩
  · obtain ⟨rfl, rfl⟩ := solo.underway.here pass there (fun _ => nofun) fun needs' same =>
      .inl (Progress.gathering.inj same ▸ ready)
    exact ⟨rfl, .inr ⟨needs, there⟩⟩

/-- While a pass runs alone, the subject of every step is upstream of its target. -/
theorem Solo.upstream_of_step (solo : Solo replies draws k base stock p e) {event : Event} {turn : Turn} {index : Nat}
    {v : Label} (step : e.step event = some turn) (subject : event.subject? = some (index, v)) :
    e.graph.Upstream v p.target := by
  obtain ⟨-, could⟩ := solo.subject step subject
  refine solo.underway.within v ?_
  rcases could with fresh | ⟨needs, gathering⟩
  · rw [fresh]
    exact Option.some_ne_none _
  · rw [gathering]
    exact Option.some_ne_none _

/-! ## Steps over a graph that agrees on the ancestry -/

/-- A graph that agrees on the ancestry of the target gives every step what it looks at. -/
theorem Solo.gives (solo : Solo replies draws k base stock p e) (agree : e.graph.AgreesAbove h p.target)
    {event : Event} {turn : Turn} (step : e.step event = some turn) : e.GivesAlike h event e' := by
  intro index v subject
  have up := solo.upstream_of_step step subject
  have node := agree.node? up
  refine ⟨⟨congrArg _ node, agree.inputsOf up⟩, fun _ => ?_⟩
  rw [paramsOf, paramsOf, over_graph, node]

/-- Whatever the back-end replies, the same events are possible over a graph that agrees on the ancestry of the target,
and lead to the same state. -/
theorem Solo.follows (anything : ∀ request reply, replies request reply) (events : List Event) :
    ∀ {e : Engine} {p : Pass} {draws : Draws}, Solo replies draws k base stock p e →
      e.graph.AgreesAbove h p.target →
      (e.over h).possible events = e.possible events ∧
      (e.possible events = true → events.foldl after (e.over h) = (events.foldl after e).over h) := by
  induction events with
  | nil => exact fun _ _ => ⟨rfl, fun _ => rfl⟩
  | cons event rest ih =>
    intro e p draws solo agree
    rw [possible, possible, isSome_step_over]
    cases step : e.step event with
    | none => exact ⟨rfl, fun able => by cases able⟩
    | some turn =>
      have allowed : event.Allowed replies e := by
        cases event with
        | paint index reply => exact fun _ request _ _ _ => anything request reply
        | _ => trivial
      obtain ⟨draws', p', solo', -, grows, graph, -⟩ := solo.move (move_of_step step allowed)
      have one : (e.over h).after event = (e.after event).over h := by
        rw [after, after, step_over step (solo.gives agree step), step]
        rfl
      have next : e.after event = turn.engine := by
        rw [after, step]
        rfl
      -- The step has edited nothing and the target is the same, so the graphs still agree on its ancestry.
      have agree' : turn.engine.graph.AgreesAbove h p'.target := by
        rw [graph, (solo.later grows solo'.underway).target]
        exact agree
      obtain ⟨same, states⟩ := ih solo' agree'
      rw [List.foldl_cons, List.foldl_cons, one, next, same]
      refine ⟨rfl, fun able => states ?_⟩
      exact (Bool.and_eq_true_iff.mp able).2

/-! ## Whole evaluations -/

/-- The graph `h` may differ from that of the engine in any way, but not on the ancestry of the target. If nothing goes
on, an evaluation of the target is opened over the one as over the other, or refused for the same reason, be it the
target that is asked for or the cutoff of another one. In whatever order the steps come, and whatever the back-end
replies, what is possible over the one is possible over the other and leads to the same state: fragments, failures,
caches, and what evaluators tell of visits and computations. Sooner or later nothing is possible any more, and then the
pass has its result. -/
theorem evaluates_locally {settings : Settings} {canRender : Bool} {digest : Digest}
    (run : Reaches anything (blank settings canRender digest) e) (rest : ∀ event, e.step event = none)
    (there : n < e.evaluators.length) (agree : e.graph.AgreesAbove h target) :
    (∀ asked cutoff, goal asked cutoff = target →
      (e.over h).startUpTo n asked cutoff resolution salt = (e.start n target resolution salt).map (·.over h)) ∧
    ∀ turn, e.start n target resolution salt = .ok turn →
      (∀ events, (turn.over h).engine.possible events = turn.engine.possible events ∧
        (turn.engine.possible events = true →
          events.foldl after (turn.over h).engine = (events.foldl after turn.engine).over h)) ∧
      ∃ bound, ∀ events, turn.engine.possible events = true → events.length ≤ bound ∧
        ((∀ event, (events.foldl after turn.engine).step event = none) →
          ∃ p r, (events.foldl after turn.engine).passes[e.passes.length]? = some p ∧ p.result = some r) := by
  refine ⟨?_, fun turn started => ?_⟩
  · rintro asked cutoff rfl
    exact start_over agree.fedAlike.checkAcyclic
  · -- The pass looks only at nodes upstream of the target, where the two graphs agree.
    obtain ⟨⟨calm, ⟨draws, ledger⟩, -, -⟩, -⟩ := run.atRest rest anything_replies
    obtain ⟨p, -, s⟩ := started_of_start started
    have solo := calm.solo ledger there s
    have agree' : turn.engine.graph.AgreesAbove h p.target := by
      obtain ⟨log, state⟩ := s.state
      rw [state, s.target]
      exact agree
    refine ⟨fun events => solo.follows (fun _ _ => trivial) events agree', remaining turn.engine p, ?_⟩
    intro events able
    have steps := (Steps.none turn.engine).follow (fun _ _ => trivial) events able
    obtain ⟨draws', q, solo', -, less, -, -⟩ :=
      solo.along (P := fun _ _ _ => True) trivial (fun _ _ _ _ => trivial) steps
    refine ⟨by omega, fun stuck => ?_⟩
    -- A pass without a result has a step to make.
    obtain ⟨r, closed⟩ := Option.ne_none_iff_exists'.mp fun unclosed => by
      obtain ⟨event, turn', step, -⟩ := solo'.exists_step anything_replies unclosed
      rw [stuck] at step
      cases step
    exact ⟨q, r, solo'.underway.pass, closed⟩

/-- The colour that is moved among other nodes: there is no output, two unions feed each other, and one of them takes the
colour and something that is not there. -/
def movedElsewhere : Graph where
  nodes :=
    [⟨.text "a", .union, []⟩, ⟨.text "c", .color, []⟩, ⟨.text "b", .union, []⟩, ⟨.text "t", .translate, []⟩]
  edges :=
    [⟨.text "b", .text "out", .text "a", .text "a"⟩, ⟨.text "c", .text "out", .text "t", .text "in"⟩,
      ⟨.text "a", .text "out", .text "b", .text "a"⟩, ⟨.text "c", .text "out", .text "a", .text "b"⟩,
      ⟨.text "x", .text "out", .text "a", .text "c"⟩]

/-- The events of a pass for the node that moves the colour, one after another. -/
def movedOnly : List Event :=
  [.begin 0 (.text "t"), .launch 0 (.text "t"), .begin 0 (.text "c"), .run 0, .deliver 0 (.text "c"),
    .proceed 0 (.text "t"), .run 1, .deliver 0 (.text "t"), .close 0]

/-- What surrounds the colour that is moved changes nothing, whatever was asked for in the first place. -/
theorem evaluates_locally_moved : ∃ turn, moved.start 0 (.text "t") (.whole 8) "s" = .ok turn ∧
    (moved.over movedElsewhere).startUpTo 0 (.text "o") (some (.text "t")) (.whole 8) "s" =
      .ok (turn.over movedElsewhere) ∧
    movedOnly.foldl after (turn.over movedElsewhere).engine = (movedOnly.foldl after turn.engine).over movedElsewhere ∧
    ((movedOnly.foldl after turn.engine).yield? 0).isSome = true := by
  have ancestry : ∀ v, v = .text "t" ∨ v ∈ moved.graph.ancestors (.text "t") → v = .text "t" ∨ v = .text "c" := by
    have only : moved.graph.ancestors (.text "t") = [.text "c"] := by decide +kernel
    intro v above
    rwa [only, List.mem_singleton] at above
  have agree : moved.graph.AgreesAbove movedElsewhere (.text "t") := by
    refine ⟨fun v above => ?_, fun v above => ?_⟩ <;> rcases ancestry v above with rfl | rfl <;> rfl
  have acyclic : moved.graph.checkAcyclic (.text "t") = .ok () := by with_unfolding_all rfl
  obtain ⟨turn, started⟩ := start_ok (n := 0) "s" (show resolutionOf (.whole 8) = .ok (.pixels 8) from rfl) acyclic
  have opened : moved.opened (.text "t") (.whole 8) "s" = turn.engine := by rw [Engine.opened, started]
  have able : turn.engine.possible movedOnly = true := by
    rw [← opened]
    decide +kernel
  have there : 0 < moved.evaluators.length := by decide
  obtain ⟨starts, runs⟩ := @evaluates_locally moved 0 (.text "t") (.whole 8) "s" movedElsewhere {} false
    Studio.fullDigest moved_reached moved_still there agree
  refine ⟨turn, started, ?_, ((runs turn started).1 movedOnly).2 able, ?_⟩
  · rw [starts (.text "o") (some (.text "t")) rfl, started]
    rfl
  · rw [← opened]
    decide +kernel

end VectorGraph.Engine
