import VectorGraph.Proofs.Engine.Meaning
import VectorGraph.Proofs.Graph.Cycles

/-!
A node that is replaced by one of another kind.

The key of a node tells its id, the resolution, its parameters and its inputs, but not its kind. So a node that
takes the place of one with the same parameters is answered from the cache with what that one has yielded
(`carryOut_replaced`).
-/
namespace VectorGraph

/-- A node without inputs has a sound ancestry. -/
theorem Graph.sound_of_inputsOf {g : Graph} {v : Label} (there : g.hasNode v = true) (free : g.inputsOf v = []) :
    g.Sound v := by
  have lone : g.ancestors v = [] := by simp only [ancestors, reach, sourcesOf, free, List.map_nil, walk]
  rintro w (rfl | up)
  · rw [lone]
    exact ⟨there, List.not_mem_nil⟩
  · rw [lone] at up
    cases up

namespace Engine

variable {e : Engine} {k : Nat} {p : Pass} {n : Node} {kind : Kind} {f : Fragment} {r : Extent}

/-- A node whose key is stored is finished as soon as it is looked up. -/
theorem lookUp_stored (tasks : p.tasks = [(n.id, .fresh)]) (target : p.target = n.id) {inputs : Inputs}
    (stored : (e.cacheOf p.evaluator).find? (e.keyFor p.resolution n inputs) = some f) :
    ∃ cache : Cache, e.lookUp k p n inputs =
      { engine := (e.setCache p.evaluator cache).setPass k { p with tasks := [(n.id, .finished (.ok f))] }
        due := [.close k] } := by
  have set : p.set n.id (.finished (.ok f)) = { p with tasks := [(n.id, .finished (.ok f))] } := by
    simp [Pass.set, tasks]
  refine ⟨((e.cacheOf p.evaluator).request (e.keyFor p.resolution n inputs)).2, ?_⟩
  unfold lookUp
  simp only [Cache.request, stored, finish, set, target, if_true, released, List.filterMap_cons, List.filterMap_nil,
    List.map_nil, List.append_nil]

/-- A node without inputs is looked up when it begins, and its kind has no part in the key. -/
theorem begin_stored (pass : e.passes[k]? = some p) (tasks : p.tasks = [(n.id, .fresh)])
    (target : p.target = n.id) (node : e.graph.node? n.id = some { n with kind })
    (free : e.graph.inputsOf n.id = []) (bare : kind.requiredSockets = [])
    (stored : (e.cacheOf p.evaluator).find? (e.keyFor p.resolution n []) = some f) :
    ∃ cache : Cache, e.step (.begin k n.id) = some
      { engine := (e.setCache p.evaluator cache).setPass k
          { p with visited := p.visited ++ [n.id], tasks := [(n.id, .finished (.ok f))] }
        due := [.close k] } := by
  have fresh : p.progress? n.id = some .fresh := by simp [Pass.progress?, tasks]
  have sources : e.sortedInputs n.id = [] := by rw [sortedInputs, free, List.mergeSort_nil]
  have begins : e.begin k p n.id = e.lookUp k (visit p n.id) { n with kind } [] := by
    have concludes : e.begin k p n.id = e.conclude k (visit p n.id) n.id ⟨kind, [], []⟩ := by
      simp only [begin, node, sources, List.isEmpty_nil, if_true, takeIn]
      split <;> rfl
    rw [concludes, conclude, Pass.collect_nil]
    simp only [bare, List.find?_nil]
    rw [node_eq node]
  obtain ⟨cache, looked⟩ := @lookUp_stored e k (visit p n.id) { n with kind } f tasks target [] stored
  refine ⟨cache, ?_⟩
  simp only [step, pass, fresh, Option.bind_eq_bind, Option.bind_some, begins, looked]
  rfl

/-- A pass for such a node is over after two steps. -/
theorem settleAll_stored (backEnd : BackEnd) (pass : e.passes[k]? = some p) (tasks : p.tasks = [(n.id, .fresh)])
    (target : p.target = n.id) (unclosed : p.result = none) (node : e.graph.node? n.id = some { n with kind })
    (free : e.graph.inputsOf n.id = []) (bare : kind.requiredSockets = [])
    (stored : (e.cacheOf p.evaluator).find? (e.keyFor p.resolution n []) = some f) :
    ∃ q, (e.settleAll backEnd [.begin k n.id]).passes[k]? = some q ∧ q.result = some (.ok f) := by
  obtain ⟨cache, begins⟩ := begin_stored pass tasks target node free bare stored
  have low : k < e.passes.length := (List.getElem?_eq_some_iff.mp pass).1
  generalize finished : ({ p with visited := p.visited ++ [n.id], tasks := [(n.id, .finished (.ok f))] } : Pass) = q
    at begins
  generalize later : (e.setCache p.evaluator cache).setPass k q = e' at begins
  have there : e'.passes[k]? = some q := by
    rw [← later]
    exact List.getElem?_set_self low
  have done : q.result? q.target = some (.ok f) := by
    rw [← finished]
    simp [Pass.result?, Pass.progress?, target]
  have open_ : q.result = none := by
    rw [← finished]
    exact unclosed
  have closes : e'.step (.close k) = some (e'.close k q (.ok f)) := by
    simp only [step, there, open_, done, Option.bind_eq_bind, Option.bind_some]
  -- The agenda takes two steps and is found empty after them, and there is fuel for all three.
  obtain ⟨fuel, enough⟩ : ∃ fuel, [Event.begin k n.id].length * passBound e.graph = fuel + 3 :=
    ⟨9 * (e.graph.nodes.length + e.graph.edges.length) + 6, by simp only [passBound, List.length_singleton]; omega⟩
  have settled : e.settleAll backEnd [.begin k n.id] = (e'.close k q (.ok f)).engine := by
    rw [settleAll, enough, List.map_singleton]
    simp only [follow, advance, serve, begins, closes, Option.bind_eq_bind, Option.bind_some, entries, latency,
      List.map_singleton, List.nil_append, Nat.lt_irrefl, if_false]
    rfl
  refine ⟨{ q with result := some (.ok f) }, ?_, rfl⟩
  rw [settled]
  exact List.getElem?_set_self (List.getElem?_eq_some_iff.mp there).1

end Engine

/-- The fragment that an order has led to. -/
def Product.fragment? : Product → Option Fragment
  | .fragment f => some f
  | _ => none

namespace Studio

open Engine

/-- A node that has taken the place of another one is answered with what that one has yielded, if its parameters are
the same and neither has inputs. -/
theorem carryOut_replaced {s : Studio} {order : Order} {n : Node} {kind : Kind} {f : Fragment} {r : Extent}
    (backEnd : BackEnd) (salt : Nat → String) (aim : order.aim = .fragment) (target : order.target = n.id)
    (positive : resolutionOf order.resolution = .ok r)
    (node : s.engine.graph.node? n.id = some { n with kind }) (free : s.engine.graph.inputsOf n.id = [])
    (bare : kind.requiredSockets = [])
    (stored : (s.engine.cacheOf order.evaluator).find? (s.engine.keyFor r n []) = some f) :
    (s.carryOut backEnd salt [order]).1 = [.ok (.fragment f)] := by
  have announced : s.announce order = (0, order.resolution, s) := by rw [announce, aim]
  have acyclic : s.engine.graph.checkAcyclic n.id = .ok () :=
    Graph.checkAcyclic_ok_iff.mpr (Graph.sound_of_inputsOf (hasNode_of_node? node) free)
  obtain ⟨turn, started⟩ := start_ok (n := order.evaluator) (salt (s.engine.passes.length + 1)) positive acyclic
  obtain ⟨p, hr, opens⟩ := started_of_start started
  obtain rfl := Except.ok.inj (positive.symm.trans hr)
  have due : turn.due = [.begin s.engine.passes.length n.id] := by
    rw [start, positive, acyclic] at started
    obtain rfl := Except.ok.inj started
    rfl
  obtain ⟨log, state⟩ := opens.state
  have there : turn.engine.passes[s.engine.passes.length]? = some p := by
    rw [state]
    simp
  have taken : s.take salt order =
      (.open order s.engine.passes.length 0, turn.due, { s with engine := turn.engine }) := by
    rw [take, announced]
    dsimp only
    rw [target, started]
  -- Starting the pass has changed neither the graph nor the caches.
  have node' : turn.engine.graph.node? n.id = some { n with kind } := by rw [state]; exact node
  have free' : turn.engine.graph.inputsOf n.id = [] := by rw [state]; exact free
  have stored' : (turn.engine.cacheOf p.evaluator).find? (turn.engine.keyFor p.resolution n []) = some f := by
    rw [state, opens.evaluator]
    exact stored
  obtain ⟨q, hq, result⟩ :=
    settleAll_stored backEnd there opens.tasks opens.target opens.result node' free' bare stored'
  simp only [carryOut, List.foldl_cons, List.foldl_nil, taken, List.nil_append, due, handOut, hq]
  cases q
  dsimp only at result
  subst result
  simp only [deliver, aim]
  rfl

/-- A digest that loses nothing: the bytes as characters. -/
def fullDigest : Digest := fun bytes => String.ofList (bytes.data.toList.map fun b => Char.ofNat b.toNat)

/-- A studio with one evaluator over a graph of one node. -/
def single (kind : Kind) : Studio where
  engine := { (blank {} false fullDigest).addEvaluator none with graph := { nodes := [⟨.text "n", kind, []⟩] } }

/-- Orders the node of such a studio. -/
def orderNode (s : Studio) : List (Except Failure Product) × Studio :=
  s.carryOut (fun _ _ => .error .notConfigured) (fun _ => "") [⟨0, .fragment, .text "n", .whole 8⟩]

/-- A colour has been evaluated, and a brightness has been added in its place. -/
def recast : Studio :=
  let s := (orderNode (single .color)).2
  { s with engine := { s.engine with graph := (single .color).engine.graph.addNode ⟨.text "n", .value, []⟩ } }

/-- An evaluator that has evaluated the colour goes on to show it, white, where a new one shows the grey of the
brightness. -/
theorem carryOut_replaced_recast :
    recast.engine.graph = (single .value).engine.graph ∧
    (orderNode recast).1 =
      [.ok (.fragment ⟨"<rect x=\"0\" y=\"0\" width=\"8\" height=\"8\" fill=\"rgb(255,255,255)\"/>", []⟩)] ∧
    (orderNode (single .value)).1.map (fun result => result.toOption.bind Product.fragment?) =
      [some ⟨"<rect x=\"0\" y=\"0\" width=\"8\" height=\"8\" fill=\"rgb(128,128,128)\"/>", []⟩] := by
  have stored : (recast.engine.cacheOf 0).find? (recast.engine.keyFor (.pixels 8) ⟨.text "n", .color, []⟩ []) =
      some ⟨"<rect x=\"0\" y=\"0\" width=\"8\" height=\"8\" fill=\"rgb(255,255,255)\"/>", []⟩ := by
    decide +kernel
  refine ⟨rfl, ?_, by decide +kernel⟩
  exact carryOut_replaced _ _ rfl rfl rfl rfl rfl rfl stored

end Studio

end VectorGraph
