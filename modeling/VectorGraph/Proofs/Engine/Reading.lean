import VectorGraph.Proofs.Engine.Usage

/-!
What a step reads of the graph.

Steps look at the graph for one node at most, the one that begins or goes on. Whether a step is possible is no matter of
the graph at all (`isSome_step_over`). What it does is the same over a graph in which that node has the same kind and the
same inputs; the parameters matter only where the node is looked up, and so not where it goes on gathering
(`step_over`).
-/
namespace VectorGraph

/-- The node whose entry in the graph the event may look at, and its pass. -/
def Event.subject? : Event → Option (Nat × Label)
  | .begin index node => some (index, node)
  | .proceed index node => some (index, node)
  | _ => none

/-- The node waits for a computation, or is finished. -/
def Progress.IsDecided : Progress → Prop
  | .waiting _ => True
  | .finished _ => True
  | _ => False

/-- The engine with a graph in the place of its own. -/
def Engine.over (e : Engine) (g : Graph) : Engine := { e with graph := g }

/-- The step with a graph in the place of its own. -/
def Turn.over (t : Turn) (g : Graph) : Turn := { t with engine := t.engine.over g }

namespace Engine

variable {e : Engine} {g : Graph} {index : Nat} {p : Pass} {v : Label} {needs : Gathering} {x : Progress}

@[simp] theorem over_graph (e : Engine) (g : Graph) : (e.over g).graph = g := rfl

@[simp] theorem over_passes (e : Engine) (g : Graph) : (e.over g).passes = e.passes := rfl

@[simp] theorem over_settings (e : Engine) (g : Graph) : (e.over g).settings = e.settings := rfl

@[simp] theorem over_computations (e : Engine) (g : Graph) : (e.over g).computations = e.computations := rfl

@[simp] theorem over_over (e : Engine) (g h : Graph) : (e.over g).over h = e.over h := rfl

@[simp] theorem over_self (e : Engine) : e.over e.graph = e := rfl

/-- The graph `g` has the node with the same kind and the same inputs. -/
structure SeesAlike (e : Engine) (g : Graph) (v : Label) : Prop where
  kind : (g.node? v).map (·.kind) = (e.graph.node? v).map (·.kind)
  inputs : g.inputsOf v = e.graph.inputsOf v

/-- The pass has looked the node up, or has found that it fails. -/
def Decided (e : Engine) (index : Nat) (v : Label) : Prop :=
  ∃ p x, e.passes[index]? = some p ∧ p.progress? v = some x ∧ x.IsDecided

theorem decided_of_set {e' : Engine} (passes : e'.passes = e.passes.set index (p.set v x))
    (low : index < e.passes.length) (there : p.progress? v ≠ none) (decided : x.IsDecided) : e'.Decided index v := by
  refine ⟨p.set v x, x, ?_, Pass.progress?_set_self x there, decided⟩
  rw [passes, List.getElem?_set_self low]

/-! ## Parts of a step -/

theorem finish_over (r : Except Failure Fragment) : (e.over g).finish index p v r = (e.finish index p v r).over g := rfl

theorem lookUp_over (node : Node) (inputs : Inputs) :
    (e.over g).lookUp index p node inputs = (e.lookUp index p node inputs).over g := by
  have same : (e.over g).cacheOf p.evaluator = e.cacheOf p.evaluator := rfl
  have key : (e.over g).keyFor p.resolution node inputs = e.keyFor p.resolution node inputs := rfl
  unfold lookUp
  rw [same, key]
  generalize (e.cacheOf p.evaluator).request (e.keyFor p.resolution node inputs) = answer
  obtain ⟨grant, cache⟩ := answer
  cases grant <;> rfl

theorem lookUp_decided (low : index < e.passes.length) (node : Node) (there : p.progress? node.id ≠ none)
    (inputs : Inputs) : (e.lookUp index p node inputs).engine.Decided index node.id := by
  unfold lookUp
  generalize (e.cacheOf p.evaluator).request (e.keyFor p.resolution node inputs) = answer
  obtain ⟨grant, cache⟩ := answer
  cases grant with
  | found f => exact decided_of_set (x := .finished (.ok f)) rfl low there trivial
  | joined ticket => exact decided_of_set (x := .waiting _) rfl low there trivial
  | started ticket => exact decided_of_set (x := .waiting _) rfl low there trivial

theorem finish_decided (low : index < e.passes.length) (there : p.progress? v ≠ none) (r : Except Failure Fragment) :
    (e.finish index p v r).engine.Decided index v :=
  decided_of_set (x := .finished r) rfl low there trivial

/-- A node whose sources are finished goes on in the same way, if its parameters are the same. -/
theorem conclude_over (params : (e.over g).paramsOf v = e.paramsOf v) :
    (e.over g).conclude index p v needs = (e.conclude index p v needs).over g := by
  unfold conclude
  cases p.collect needs.inputs with
  | error failure => rfl
  | ok inputs =>
    cases hm : needs.kind.requiredSockets.find? fun socket => !inputs.any (·.1 == socket) with
    | some socket => simp only [hm, finish_over]
    | none =>
      simp only [hm, params]
      exact lookUp_over _ inputs

/-- A node whose sources are finished is decided. -/
theorem conclude_decided (low : index < e.passes.length) (there : p.progress? v ≠ none) :
    (e.conclude index p v needs).engine.Decided index v := by
  unfold conclude
  cases p.collect needs.inputs with
  | error failure => exact finish_decided low there _
  | ok inputs =>
    cases hm : needs.kind.requiredSockets.find? fun socket => !inputs.any (·.1 == socket) with
    | some socket =>
      simp only [hm]
      exact finish_decided low there _
    | none =>
      simp only [hm]
      exact lookUp_decided low ⟨v, needs.kind, e.paramsOf v⟩ there inputs

theorem takeIn_over (low : index < e.passes.length) (there : p.progress? v ≠ none) (pending : List (Label × Label))
    (params : (e.takeIn index p v needs pending).engine.Decided index v → (e.over g).paramsOf v = e.paramsOf v) :
    (e.over g).takeIn index p v needs pending = (e.takeIn index p v needs pending).over g := by
  induction pending with
  | nil => exact conclude_over (params (conclude_decided low there))
  | cons i rest ih =>
    unfold takeIn at params ⊢
    cases hr : p.result? i.2 with
    | none => rfl
    | some r =>
      rw [hr] at params
      cases r with
      | ok f => exact ih params
      | error failure =>
        dsimp only at params ⊢
        by_cases graph : failure.isGraphFault = true
        · rw [if_pos graph] at params
          rw [if_pos graph, if_pos graph]
          exact ih params
        · rw [if_neg graph, if_neg graph]
          rfl

theorem begin_over (alike : e.SeesAlike g v) (low : index < e.passes.length) (there : p.progress? v ≠ none)
    (params : (e.begin index p v).engine.Decided index v → (e.over g).paramsOf v = e.paramsOf v) :
    (e.over g).begin index p v = (e.begin index p v).over g := by
  -- All that a task reads when it begins: its inputs in order, its kind, and the settings, which are the same.
  have inputs : (e.over g).sortedInputs v = e.sortedInputs v := congrArg (List.mergeSort · _) alike.inputs
  have kind := alike.kind
  unfold begin at params ⊢
  rw [over_graph, inputs]
  cases hn : e.graph.node? v with
  | none =>
    rw [hn, Option.map_none, Option.map_eq_none_iff] at kind
    rw [kind]
    rfl
  | some n =>
    rw [hn] at kind params
    obtain ⟨n', hn', same⟩ := Option.map_eq_some_iff.mp kind
    rw [hn']
    dsimp only at params ⊢
    rw [same]
    by_cases oneByOne : (!e.settings.concurrentSiblings) = true
    · rw [if_pos oneByOne] at params
      have oneByOne' : (!(e.over g).settings.concurrentSiblings) = true := oneByOne
      rw [if_pos oneByOne, if_pos oneByOne']
      exact takeIn_over (p := visit p v) low there _ params
    · rw [if_neg oneByOne] at params
      have sideBySide : ¬ (!(e.over g).settings.concurrentSiblings) = true := oneByOne
      rw [if_neg oneByOne, if_neg sideBySide]
      by_cases bare : (e.sortedInputs v).isEmpty = true
      · rw [if_pos bare] at params
        rw [if_pos bare, if_pos bare]
        exact conclude_over (params (conclude_decided low there))
      · rw [if_neg bare, if_neg bare]
        rfl

theorem settle_over (c : Computation) (outcome : Outcome) :
    (e.over g).settle index c outcome = (e.settle index c outcome).over g := rfl

theorem run_over (c : Computation) : (e.over g).run index c p = (e.run index c p).over g := by
  have same : (e.over g).workOf p c = e.workOf p c := rfl
  unfold run
  rw [same]
  obtain ⟨work, ids⟩ := e.workOf p c
  cases work with
  | error failure => rfl
  | ok work => cases work <;> rfl

/-! ## Steps -/

/-- An event without a subject makes the same step over every graph. -/
theorem step_over_blind {event : Event} (blind : event.subject? = none) :
    (e.over g).step event = (e.step event).map (·.over g) := by
  -- Both sides branch on the passes and the computations alone, which the graph is no part of.
  cases event with
  | begin index v => cases blind
  | proceed index v => cases blind
  | launch index v =>
    simp only [step, over_passes, over_settings]
    cases e.passes[index]? with
    | none => rfl
    | some p =>
      simp only [Option.bind_eq_bind, Option.bind_some]
      cases p.progress? v with
      | none => rfl
      | some x =>
        cases x with
        | gathering needs =>
          simp only [apply_ite (Option.map _)]
          rfl
        | _ => rfl
  | run index =>
    simp only [step, over_passes, over_computations]
    cases e.computations[index]? with
    | none => rfl
    | some c =>
      simp only [Option.bind_eq_bind, Option.bind_some]
      cases e.passes[c.pass]? with
      | none => rfl
      | some p =>
        simp only [Option.bind_some, run_over]
        cases c.stage <;> rfl
  | paint index reply =>
    simp only [step, over_computations]
    cases e.computations[index]? with
    | none => rfl
    | some c =>
      simp only [Option.bind_eq_bind, Option.bind_some]
      cases c.stage <;> rfl
  | deliver index v =>
    simp only [step, over_passes, over_computations]
    cases e.passes[index]? with
    | none => rfl
    | some p =>
      simp only [Option.bind_eq_bind, Option.bind_some]
      cases p.progress? v with
      | none => rfl
      | some x =>
        cases x with
        | waiting i =>
          dsimp only
          cases (e.computations[i]?).map Computation.stage with
          | none => rfl
          | some stage => cases stage <;> rfl
        | _ => rfl
  | close index =>
    simp only [step, over_passes]
    cases e.passes[index]? with
    | none => rfl
    | some p =>
      simp only [Option.bind_eq_bind, Option.bind_some]
      cases p.result <;> cases p.result? p.target <;> rfl

/-- Whether a step is possible is no matter of the graph. -/
theorem isSome_step_over (event : Event) : ((e.over g).step event).isSome = (e.step event).isSome := by
  by_cases blind : event.subject? = none
  · rw [step_over_blind blind, Option.isSome_map]
  · cases event with
    | begin index v =>
      simp only [step, over_passes]
      cases e.passes[index]? with
      | none => rfl
      | some p =>
        simp only [Option.bind_eq_bind, Option.bind_some]
        split <;> rfl
    | proceed index v =>
      simp only [step, over_passes]
      cases e.passes[index]? with
      | none => rfl
      | some p =>
        simp only [Option.bind_eq_bind, Option.bind_some]
        split
        · simp only [apply_ite Option.isSome, Option.isSome_some, ite_self]
          rfl
        · rfl
    | _ => exact absurd rfl blind

/-- The graph `g` gives the event what it looks at: the kind and the inputs of its subject, and the parameters if the
subject is decided afterwards, in `e'`. -/
def GivesAlike (e : Engine) (g : Graph) (event : Event) (e' : Engine) : Prop :=
  ∀ index v, event.subject? = some (index, v) →
    e.SeesAlike g v ∧ (e'.Decided index v → (e.over g).paramsOf v = e.paramsOf v)

/-- A step that is possible is the same over a graph that gives it what it looks at. -/
theorem step_over {event : Event} {turn : Turn} (step : e.step event = some turn)
    (alike : e.GivesAlike g event turn.engine) : (e.over g).step event = some (turn.over g) := by
  by_cases blind : event.subject? = none
  · rw [step_over_blind blind, step, Option.map_some]
  · cases event with
    | begin index v =>
      obtain ⟨sees, params⟩ := alike index v rfl
      simp only [Engine.step, over_passes] at step ⊢
      obtain ⟨p, pass, step⟩ := Option.bind_eq_some_iff.mp step
      rw [pass]
      simp only [Option.bind_eq_bind, Option.bind_some]
      split at step
      · next fresh =>
        obtain rfl := Option.some.inj step
        exact congrArg some (begin_over sees (List.getElem?_eq_some_iff.mp pass).1
          (by rw [fresh]; exact Option.some_ne_none _) params)
      · cases step
    | proceed index v =>
      obtain ⟨-, params⟩ := alike index v rfl
      simp only [Engine.step, over_passes] at step ⊢
      obtain ⟨p, pass, step⟩ := Option.bind_eq_some_iff.mp step
      have low := (List.getElem?_eq_some_iff.mp pass).1
      rw [pass]
      simp only [Option.bind_eq_bind, Option.bind_some]
      split at step
      · next needs gathering =>
        have there : p.progress? v ≠ none := by
          rw [gathering]
          exact Option.some_ne_none _
        split at step
        · next ready =>
          refine (if_pos ready).trans ?_
          split at step
          · next sideBySide =>
            obtain rfl := Option.some.inj step
            refine (if_pos sideBySide).trans ?_
            rw [conclude_over (params (conclude_decided low there))]
          · next oneByOne =>
            obtain rfl := Option.some.inj step
            refine (if_neg oneByOne).trans ?_
            rw [takeIn_over low there needs.pending params]
        · cases step
      · cases step
    | _ => exact absurd rfl blind

theorem SeesAlike.refl (e : Engine) (v : Label) : e.SeesAlike e.graph v := ⟨rfl, rfl⟩

/-- No step edits the graph. -/
theorem step_graph {event : Event} {turn : Turn} (step : e.step event = some turn) : turn.engine.graph = e.graph := by
  have same : e.step event = some (turn.over e.graph) :=
    step_over step fun _ v _ => ⟨.refl e v, fun _ => rfl⟩
  have engine : turn = turn.over e.graph := Option.some.inj (step.symm.trans same)
  rw [engine]
  rfl

/-- A pass is opened alike, or refused for the same reason, over a graph that gets the same answer from the check for
cycles. -/
theorem start_over {n : Nat} {target : Label} {resolution : Json} {salt : String}
    (same : g.checkAcyclic target = e.graph.checkAcyclic target) :
    (e.over g).start n target resolution salt = (e.start n target resolution salt).map (·.over g) := by
  unfold start
  rw [over_graph, same]
  cases resolutionOf resolution with
  | error fault => rfl
  | ok r => cases e.graph.checkAcyclic target <;> rfl

end Engine

end VectorGraph
