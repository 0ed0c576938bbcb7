import Mathlib.Data.List.Nodup
import VectorGraph.Proofs.Engine.Solo

/-!
What a pass computes that runs alone and finds nothing in its cache.

`Engine.Evaluates` says what it is to evaluate a list of nodes in turn: every node comes after its
sources, its operator is run on what they have yielded, and the ids go from one run to the next. A pass
that runs alone evaluates the target and its ancestors in this sense (`evaluates_target`), whichever way
its steps are ordered and whether inputs are taken side by side or one by one.

The order in which the nodes are evaluated is the one in which their computations have run. It is kept
in `Engine.Recorded`, since a computation that is run may end long after others that were run later.
-/
namespace VectorGraph

namespace Engine

variable {e e' : Engine} {replies : Replies} {draws draws' : Draws} {k base : Nat}
  {stock : List (CacheKey × Fragment)} {p p' : Pass} {first ids : IdSource}

/-- The inputs of a node whose sources have yielded what `F` says. -/
def inputsBy (e : Engine) (F : Label → Fragment) (v : Label) : Inputs :=
  (e.sortedInputs v).map fun i => (i.1.nameText, F i.2)

/-- Nodes are evaluated in turn, each after its sources. The ids that a run leaves are those that the
next one starts from. -/
inductive Evaluates (e : Engine) (replies : Replies) (resolution : Extent) (F : Label → Fragment)
    (first : IdSource) : List Label → IdSource → Prop where
  | none : Evaluates e replies resolution F first [] first
  | node {done : List Label} {ids : IdSource} {v : Label} {n : Node}
      (before : Evaluates e replies resolution F first done ids) (node : e.graph.node? v = some n)
      (sources : ∀ u, e.graph.Feeds u v → u ∈ done)
      (yields : Work.Yields replies
        (n.perform e.settings e.canRender resolution (e.inputsBy F v) ids).1 (.ok (F v))) :
      Evaluates e replies resolution F first (done ++ [v])
        (n.perform e.settings e.canRender resolution (e.inputsBy F v) ids).2

/-! ## The order of the runs -/

/-- The node of a computation. -/
def nodeName (e : Engine) (i : Nat) : Label := ((e.computations[i]?).map (·.node.id)).getD default

theorem nodeName_eq {i : Nat} {c : Computation} (h : e.computations[i]? = some c) :
    e.nodeName i = c.node.id := by
  rw [nodeName, h]
  rfl

theorem Grows.nodeName (h : Grows e e') {i : Nat} {c : Computation} (hc : e.computations[i]? = some c) :
    e'.nodeName i = e.nodeName i := by
  obtain ⟨d, hd, hcd⟩ := h.computations i c hc
  rw [nodeName_eq hc, nodeName_eq hd, hcd.node]

/-- Computations have run in turn, each after those for its sources, and the ids go from one to the next.
-/
inductive Threaded (e : Engine) (draws : Draws) (first : IdSource) : List Nat → IdSource → Prop where
  | none : Threaded e draws first [] first
  | run {runs : List Nat} {i : Nat} {c : Computation} (before : Threaded e draws first runs (draws i))
      (computation : e.computations[i]? = some c)
      (sources : ∀ u, e.graph.Feeds u c.node.id → ∃ j ∈ runs, e.nodeName j = u) :
      Threaded e draws first (runs ++ [i]) (e.runOf c (draws i)).2

/-- Every computation that has run is one. -/
theorem Threaded.exists {runs : List Nat} (h : Threaded e draws first runs ids) {i : Nat} (hi : i ∈ runs) :
    ∃ c, e.computations[i]? = some c := by
  induction h with
  | none => cases hi
  | run before computation sources ih =>
    rcases List.mem_append.mp hi with hi | hi
    · exact ih hi
    · rw [List.mem_singleton] at hi
      exact ⟨_, hi ▸ computation⟩

theorem Threaded.mono {runs : List Nat} (h : Threaded e draws first runs ids)
    (ledger : Ledger replies draws e) (grows : Grows e e') (graph : e'.graph = e.graph)
    (agree : ∀ i ∈ runs, draws' i = draws i) : Threaded e' draws' first runs ids := by
  induction h with
  | none => exact .none
  | @run runs i c before computation sources ih =>
    have same : draws' i = draws i := agree i (List.mem_append_right runs (List.mem_singleton_self i))
    have earlier := ih fun j hj => agree j (List.mem_append_left _ hj)
    obtain ⟨d, hd, hcd⟩ := grows.computations i c computation
    obtain ⟨q, hq⟩ := ledger.passes i c computation
    rw [← grows.runOf hq hcd, ← same]
    refine .run (same ▸ earlier) hd fun u hu => ?_
    rw [graph, hcd.node] at hu
    obtain ⟨j, hj, name⟩ := sources u hu
    obtain ⟨cj, hcj⟩ := before.exists hj
    exact ⟨j, hj, (grows.nodeName hcj).trans name⟩

/-- The computations from `base` on that have run are `runs`, in this order, and the pass has a record of
them. -/
structure Recorded (e : Engine) (draws : Draws) (base : Nat) (first : IdSource) (p : Pass)
    (runs : List Nat) : Prop where
  computed : p.computed = runs.map e.nodeName
  all : ∀ i, i ∈ runs ↔ base ≤ i ∧ ∃ c : Computation, e.computations[i]? = some c ∧ c.stage ≠ .queued
  once : runs.Nodup
  threaded : Threaded e draws first runs p.ids

namespace Solo

variable {rank : Label → Nat} {v : Label}

/-- A node that has yielded a fragment has done so by a computation of the pass. -/
theorem computation_of_ok (h : Solo replies draws k base [] p e) {f : Fragment}
    (done : p.result? v = some (.ok f)) :
    ∃ (i : Nat) (c : Computation), base ≤ i ∧ e.computations[i]? = some c ∧ c.node.id = v ∧
      e.graph.node? v = some c.node ∧ c.stage = .ended (.ok f) ∧
      p.Gathers e.settings.concurrentSiblings (e.sortedInputs v) (.ok c.inputs) := by
  have accounts := h.underway.sound v _ (Pass.result?_eq_some.mp done)
  cases accounts with
  | gathered result gathers => cases result
  | missed node gathers missing result => cases result
  | @computed n got i c node gathers complete computation key store stage own old =>
    have hi := base_le_of_nothing_stored old
    obtain ⟨rfl, rfl⟩ := own hi
    exact ⟨i, c, hi, computation, Graph.node?_id node, node, stage, gathers⟩

/-- The computations for the sources of a node whose operator has not run yet have ended. -/
theorem sources_ended (h : Solo replies draws k base [] p e) {i : Nat} {c : Computation}
    (hc : e.computations[i]? = some c) (queued : c.stage = .queued) {u : Label}
    (feeds : e.graph.Feeds u c.node.id) :
    ∃ (j : Nat) (d : Computation) (f : Fragment), base ≤ j ∧ e.computations[j]? = some d ∧
      d.node.id = u ∧ d.stage = .ended (.ok f) := by
  obtain ⟨-, n, d, -, hd, -, -, gathers⟩ := h.underway.sound _ _ (h.waiting_of_queued hc queued)
  obtain ⟨input, hinput, rfl⟩ := exists_input feeds
  obtain ⟨f, -, done⟩ := gathers.exists_input hinput
  obtain ⟨j, d, hj, hd, name, -, stage, -⟩ := h.computation_of_ok done
  exact ⟨j, d, f, hj, hd, name, stage⟩

end Solo

section Record

variable {runs : List Nat} (rec_ : Recorded e draws base first p runs)

include rec_

theorem Recorded.nodeName (grows : Grows e e') {i : Nat} (hi : i ∈ runs) : e'.nodeName i = e.nodeName i := by
  obtain ⟨c, hc⟩ := rec_.threaded.exists hi
  exact grows.nodeName hc

/-- A move that runs no operator keeps the record. -/
theorem Recorded.unrun (h : SoloMove replies k base [] draws p e draws p' e') (unrun : Unrun e e')
    (computed : p'.computed = p.computed) (ids : p'.ids = p.ids) : Recorded e' draws base first p' runs := by
  refine ⟨?_, fun i => ?_, rec_.once, ?_⟩
  · rw [computed, rec_.computed]
    exact (List.map_congr_left fun i hi => rec_.nodeName h.grows hi).symm
  · rw [rec_.all i]
    refine and_congr_right fun _ => ⟨?_, ?_⟩
    · rintro ⟨c, hc, begun⟩
      obtain ⟨d, hd, -⟩ := h.grows.computations i c hc
      exact ⟨d, hd, fun queued => begun ((unrun.computations i c d hc hd).mp queued)⟩
    · rintro ⟨d, hd, begun⟩
      cases hc : e.computations[i]? with
      | none => exact absurd (unrun.new i d hc hd) begun
      | some c => exact ⟨c, rfl, fun queued => begun ((unrun.computations i c d hc hd).mpr queued)⟩
  · rw [ids]
    exact rec_.threaded.mono h.before.ledger h.grows h.graph fun _ _ => rfl

/-- A move that runs the operator of a computation adds this to the record. -/
theorem Recorded.ran {i : Nat} {c d : Computation}
    (h : SoloMove replies k base [] draws p e (Function.update draws i p.ids)
      { p with computed := p.computed ++ [c.node.id], ids := (e.workOf p c).2 } e')
    (low : base ≤ i) (computation : e.computations[i]? = some c) (queued : c.stage = .queued)
    (pass : e.passes[c.pass]? = some p) (computations : e'.computations = e.computations.set i d)
    (begun : d.stage ≠ .queued) :
    Recorded e' (Function.update draws i p.ids) base first
      { p with computed := p.computed ++ [c.node.id], ids := (e.workOf p c).2 } (runs ++ [i]) := by
  have length : i < e.computations.length := (List.getElem?_eq_some_iff.mp computation).1
  have there : e'.computations[i]? = some d := by
    rw [computations, List.getElem?_set_self length]
  have new : i ∉ runs := by
    intro old
    obtain ⟨-, c', hc', begun'⟩ := (rec_.all i).mp old
    obtain rfl := Option.some.inj (computation.symm.trans hc')
    exact begun' queued
  obtain ⟨d', hd', hcd⟩ := h.grows.computations i c computation
  obtain rfl := Option.some.inj (there.symm.trans hd')
  refine ⟨?_, fun j => ?_, ?_, ?_⟩
  · rw [List.map_append, List.map_congr_left fun j hj => rec_.nodeName h.grows hj, ← rec_.computed,
      List.map_singleton, nodeName_eq there, hcd.node]
  · rw [List.mem_append, List.mem_singleton, rec_.all j, computations]
    by_cases hij : i = j
    · subst hij
      rw [List.getElem?_set_self length]
      exact ⟨fun _ => ⟨low, d, rfl, begun⟩, fun _ => .inr rfl⟩
    · rw [List.getElem?_set_ne hij]
      exact or_iff_left (Ne.symm hij)
  · refine List.nodup_append.mpr ⟨rec_.once, by simp, fun a ha b hb hab => ?_⟩
    rw [List.mem_singleton] at hb
    exact new (hb ▸ hab ▸ ha)
  · have drawn : Function.update draws i p.ids i = p.ids := Function.update_self ..
    -- The draws of the earlier runs are untouched, as the computation that runs now is none of them.
    have earlier : Threaded e' (Function.update draws i p.ids) first runs p.ids :=
      rec_.threaded.mono h.before.ledger h.grows h.graph fun j hj =>
        Function.update_of_ne (fun hij => new (by rw [← hij]; exact hj)) ..
    have left : (e.workOf p c).2 = (e'.runOf d (Function.update draws i p.ids i)).2 := by
      rw [drawn, h.grows.runOf pass hcd, runOf_eq_workOf pass]
    show Threaded e' _ first (runs ++ [i]) (e.workOf p c).2
    rw [left]
    -- The sources have ended, so their computations are no longer queued: they stand in the record.
    refine .run (drawn.symm ▸ earlier) there fun u hu => ?_
    rw [h.graph, hcd.node] at hu
    obtain ⟨j, cj, f, hj, hcj, name, stage⟩ := h.before.sources_ended computation queued hu
    refine ⟨j, (rec_.all j).mpr ⟨hj, cj, hcj, fun queued => ?_⟩, ?_⟩
    · rw [stage] at queued
      cases queued
    · rw [h.grows.nodeName hcj, nodeName_eq hcj, name]

/-- Every move keeps a record, and adds to it what it runs. -/
theorem SoloMove.recorded (h : SoloMove replies k base [] draws p e draws' p' e') :
    ∃ runs', Recorded e' draws' base first p' runs' := by
  cases h.runs with
  | none unrun computed ids => exact ⟨runs, rec_.unrun h unrun computed ids⟩
  | one low computation queued pass computations begun =>
    exact ⟨_, rec_.ran h low computation queued pass computations begun⟩

end Record

/-! ## What the nodes yield -/

/-- No computation from `base` on has failed. -/
def Clean (e : Engine) (base : Nat) : Prop :=
  ∀ c ∈ e.computations.drop base, ∀ failure, c.stage ≠ .ended (.error failure)

/-- A computation has failed because its operator did. -/
def Raised (e : Engine) (replies : Replies) (c : Computation) : Prop :=
  ∃ failure ids, c.stage = .ended (.error failure) ∧
    Work.Yields replies (e.runOf c ids).1 (.error failure)

/-- Where fragments can be stored, a computation fails only if its operator does. -/
theorem Ledger.clean (h : Ledger replies draws e) (capacity : 0 ≤ e.settings.maxCacheEntries)
    (none_ : ∀ c ∈ e.computations.drop base, ¬ e.Raised replies c) : e.Clean base := by
  intro c hc failure stage
  obtain ⟨i, hi⟩ := List.mem_iff_getElem?.mp hc
  rw [List.getElem?_drop] at hi
  refine none_ c hc ⟨failure, draws (base + i), stage, ?_⟩
  cases h.works (base + i) c hi with
  | queued hs => rw [stage] at hs; cases hs
  | painting hs => rw [stage] at hs; cases hs
  | ended hs yields answered accepted =>
    rw [stage] at hs
    obtain rfl := Stage.ended.inj hs
    rw [accepted capacity]
    exact yields

theorem Clean.ok (h : e.Clean base) {i : Nat} {c : Computation} {r : Except Failure Fragment}
    (hc : e.computations[i]? = some c) (hi : base ≤ i) (stage : c.stage = .ended r) : ∃ f, r = .ok f := by
  have mem : c ∈ e.computations.drop base := by
    refine List.mem_of_getElem? (i := i - base) ?_
    rw [List.getElem?_drop, Nat.add_sub_cancel' hi, hc]
  cases r with
  | ok f => exact ⟨f, rfl⟩
  | error failure => exact absurd stage (h c mem failure)

namespace Solo

/-- Unless an operator fails, no node does: going up the graph, the inputs of a node can be gathered, and
none that is required is missing. -/
theorem results_ok (h : Solo replies draws k base [] p e) (connected : e.graph.Connected p.target)
    (clean : e.Clean base) {v : Label} {r : Except Failure Fragment} (done : p.result? v = some r) :
    ∃ f, r = .ok f := by
  obtain ⟨rank, ranked⟩ := h.exists_rank
  have up : ∀ {v r}, p.progress? v = some (.finished r) → e.graph.Upstream v p.target := fun done =>
    h.underway.within _ (by rw [done]; exact Option.some_ne_none _)
  refine ranked.induction (M := fun v => ∀ r, p.result? v = some r → ∃ f, r = .ok f) (fun v up ih r done => ?_)
    (up (Pass.result?_eq_some.mp done)) r done
  cases h.underway.sound v _ (Pass.result?_eq_some.mp done) with
  | gathered result gathers =>
    obtain ⟨i, hi, failed⟩ := gathers.exists_failed
    obtain ⟨f, hf⟩ := ih i.2 (feeds_of_mem hi) _ failed
    cases hf
  | @missed m got socket node gathers missing result =>
    have required := List.mem_of_find?_eq_some missing
    obtain ⟨i, hi, name⟩ := connected v m (Graph.upstream_iff.mp up) node socket required
    obtain ⟨f, hf, -⟩ := gathers.exists_input (List.mem_mergeSort.mpr hi)
    have absent := List.find?_some missing
    rw [Bool.not_eq_true', List.any_eq_false] at absent
    exact absurd (beq_iff_eq.mpr name) (absent _ hf)
  | @computed m got i c node gathers complete computation key store stage own old =>
    have hi := base_le_of_nothing_stored old
    exact clean.ok computation hi stage

/-- A node that has yielded a fragment has done so from inputs that are complete. -/
theorem gathered_of_ok (h : Solo replies draws k base stock p e) {v : Label} {f : Fragment}
    (done : p.result? v = some (.ok f)) : ∃ n got, e.graph.node? v = some n ∧
      p.Gathers e.settings.concurrentSiblings (e.sortedInputs v) (.ok got) ∧
      n.kind.requiredSockets.find? (fun s => !got.any (·.1 == s)) = none := by
  cases h.underway.sound v _ (Pass.result?_eq_some.mp done) with
  | gathered result gathers => cases result
  | missed node gathers missing result => cases result
  | computed node gathers complete => exact ⟨_, _, node, gathers, complete⟩

/-- When the target has yielded a fragment, so has every node that it depends on. -/
theorem result_of_upstream (h : Solo replies draws k base stock p e) {f : Fragment}
    (done : p.result? p.target = some (.ok f)) {v : Label} (up : e.graph.Upstream v p.target) :
    ∃ g, p.result? v = some (.ok g) := by
  induction up using Relation.ReflTransGen.head_induction_on with
  | refl => exact ⟨f, done⟩
  | head feeds _ ih =>
    obtain ⟨g, hg⟩ := ih
    obtain ⟨_, _, -, gathers, -⟩ := h.gathered_of_ok hg
    obtain ⟨input, hinput, rfl⟩ := exists_input feeds
    obtain ⟨g, -, hg⟩ := gathers.exists_input hinput
    exact ⟨g, hg⟩

end Solo

/-- What a node of a pass has yielded. -/
def yielded (p : Pass) (v : Label) : Fragment :=
  match p.result? v with
  | some (.ok f) => f
  | _ => .empty

theorem yielded_eq {v : Label} {f : Fragment} (h : p.result? v = some (.ok f)) : yielded p v = f := by
  rw [yielded, h]

/-- Inputs that are gathered in full are what the sources have yielded. -/
theorem inputsBy_eq {F : Label → Fragment} {v : Label} {sideBySide : Bool} {got : Inputs}
    (h : p.Gathers sideBySide (e.sortedInputs v) (.ok got))
    (same : ∀ i ∈ e.sortedInputs v, ∀ f, p.result? i.2 = some (.ok f) → F i.2 = f) : e.inputsBy F v = got := by
  have each := h.forall₂
  clear h
  rw [inputsBy]
  generalize e.sortedInputs v = inputs at each same
  induction each with
  | nil => rfl
  | @cons i x inputs got hx _ ih =>
    rw [List.map_cons, ih fun j hj => same j (List.mem_cons_of_mem i hj), same i List.mem_cons_self _ hx.2, ← hx.1]

theorem inputsBy_yielded {v : Label} {sideBySide : Bool} {got : Inputs}
    (h : p.Gathers sideBySide (e.sortedInputs v) (.ok got)) : e.inputsBy (yielded p) v = got :=
  inputsBy_eq h fun _ _ _ done => yielded_eq done

/-- What a pass has come to when it has evaluated its target and all that it depends on. -/
structure Evaluated (e : Engine) (replies : Replies) (first : IdSource) (p : Pass) (F : Label → Fragment) :
    Prop where
  visited : ∀ v, v ∈ p.visited ↔ v = p.target ∨ v ∈ e.graph.ancestors p.target
  visitedOnce : p.visited.Nodup
  computed : ∀ v, v ∈ p.computed ↔ v ∈ p.visited
  computedOnce : p.computed.Nodup
  evaluates : Evaluates e replies p.resolution F first p.computed p.ids
  result : p.result = some (.ok (F p.target))
  /-- The evaluator has the record of the pass. -/
  told : ∃ v : Evaluator, e.evaluators[p.evaluator]? = some v ∧ v.visited = p.visited ∧
    v.computed = p.computed

namespace Solo

section Closed

variable (h : Solo replies draws k base stock p e) (closed : p.result ≠ none)

include h closed

/-- On a closed pass, to be asked for, to be visited and to be finished is the same. -/
theorem visited_iff {v : Label} : v ∈ p.visited ↔ p.result? v ≠ none := by
  rw [h.underway.visited v]
  constructor
  · rintro ⟨x, hx, begun⟩
    obtain ⟨r, hr⟩ := Option.ne_none_iff_exists'.mp closed
    obtain ⟨rank, ranked⟩ := h.exists_rank
    obtain ⟨s, rfl⟩ := h.underway.all_finished ranked (h.told r hr).1 v x hx
    rw [Pass.result?_eq_some.mpr hx]
    exact Option.some_ne_none s
  · intro finished
    obtain ⟨s, hs⟩ := Option.ne_none_iff_exists'.mp finished
    exact ⟨_, Pass.result?_eq_some.mp hs, nofun⟩

/-- A computation of a closed pass has ended, and its node has the result. -/
theorem result_of_computation {i : Nat} {c : Computation} (hi : base ≤ i) (hc : e.computations[i]? = some c) :
    ∃ r, c.stage = .ended r ∧ p.result? c.node.id = some r := by
  rcases (h.underway.own i c hc hi).2 with waiting | ⟨r, hr, finished⟩
  · rcases ((h.calm closed).passes k p h.underway.pass).tasks _ _ waiting with ⟨s, hs⟩ | ⟨needs, hs, -⟩
    · cases hs
    · cases hs
  · exact ⟨r, hr, Pass.result?_eq_some.mpr finished⟩

variable {runs : List Nat} (rec_ : Recorded e draws base first p runs)

include rec_

/-- All computations of a closed pass have run. -/
theorem mem_runs {i : Nat} : i ∈ runs ↔ base ≤ i ∧ ∃ c, e.computations[i]? = some c := by
  rw [rec_.all i]
  refine and_congr_right fun low => ⟨fun ⟨c, hc, _⟩ => ⟨c, hc⟩, fun ⟨c, hc⟩ => ⟨c, hc, fun queued => ?_⟩⟩
  obtain ⟨r, hr, -⟩ := h.result_of_computation closed low hc
  rw [queued] at hr
  cases hr

/-- The nodes whose operators a closed pass has run are those of its computations. -/
theorem mem_computed {v : Label} : v ∈ p.computed ↔
    ∃ (i : Nat) (c : Computation), base ≤ i ∧ e.computations[i]? = some c ∧ c.node.id = v := by
  rw [rec_.computed, List.mem_map]
  constructor
  · rintro ⟨i, hi, name⟩
    obtain ⟨low, c, hc⟩ := (h.mem_runs closed rec_).mp hi
    exact ⟨i, c, low, hc, (nodeName_eq hc).symm.trans name⟩
  · rintro ⟨i, c, low, hc, name⟩
    exact ⟨i, (h.mem_runs closed rec_).mpr ⟨low, c, hc⟩, (nodeName_eq hc).trans name⟩

/-- A closed pass has run no operator twice for one node. -/
theorem nodup_computed : p.computed.Nodup := by
  rw [rec_.computed]
  refine List.Nodup.map_on (fun i hi j hj name => ?_) rec_.once
  obtain ⟨lowI, c, hc⟩ := (h.mem_runs closed rec_).mp hi
  obtain ⟨lowJ, d, hd⟩ := (h.mem_runs closed rec_).mp hj
  rw [nodeName_eq hc, nodeName_eq hd] at name
  exact h.underway.distinct i j c d hc hd lowI lowJ name

end Closed

/-- A computation of a closed pass in which no operator failed has made what its node yields of what the
sources of the node yield. -/
theorem computation_of_closed (h : Solo replies draws k base [] p e) (closed : p.result ≠ none)
    (connected : e.graph.Connected p.target) (clean : e.Clean base) {i : Nat} {c : Computation}
    (hi : base ≤ i) (hc : e.computations[i]? = some c) :
    e.graph.node? c.node.id = some c.node ∧ e.inputsBy (yielded p) c.node.id = c.inputs ∧
      c.stage = .ended (.ok (yielded p c.node.id)) ∧ p.result? c.node.id ≠ none := by
  obtain ⟨r, -, done⟩ := h.result_of_computation closed hi hc
  obtain ⟨f, rfl⟩ := h.results_ok connected clean done
  obtain ⟨j, d, hj, hd, name, node, stage, gathers⟩ := h.computation_of_ok done
  obtain rfl := h.underway.distinct i j c d hc hd hi hj name.symm
  obtain rfl := Option.some.inj (hc.symm.trans hd)
  refine ⟨node, inputsBy_yielded gathers, ?_, ?_⟩
  · rw [yielded_eq done, stage]
  · rw [done]
    exact Option.some_ne_none _

theorem evaluates (h : Solo replies draws k base [] p e) (closed : p.result ≠ none)
    (connected : e.graph.Connected p.target) (clean : e.Clean base) {runs : List Nat}
    (threaded : Threaded e draws first runs ids) (own : ∀ i ∈ runs, base ≤ i) :
    Evaluates e replies p.resolution (yielded p) first (runs.map e.nodeName) ids := by
  induction threaded with
  | none => exact .none
  | @run runs i c before computation sources ih =>
    have hi := own i (List.mem_append_right runs (List.mem_singleton_self i))
    obtain ⟨node, inputs, stage, -⟩ := h.computation_of_closed closed connected clean hi computation
    have perform : e.runOf c (draws i) = c.node.perform e.settings e.canRender p.resolution
        (e.inputsBy (yielded p) c.node.id) (draws i) := by
      obtain ⟨pass, -⟩ := h.underway.own i c computation hi
      rw [inputs, runOf, extentOf, pass, h.underway.pass]
      rfl
    rw [List.map_append, List.map_singleton, nodeName_eq computation, perform]
    refine .node (ih fun j hj => own j (List.mem_append_left _ hj)) node (fun u hu => ?_) ?_
    · obtain ⟨j, hj, name⟩ := sources u hu
      exact List.mem_map.mpr ⟨j, hj, name⟩
    · rw [← perform]
      exact h.ledger.makes computation stage

/-- A closed pass in which no operator failed has evaluated its target. -/
theorem evaluated (h : Solo replies draws k base [] p e) {runs : List Nat}
    (rec_ : Recorded e draws base first p runs) (closed : p.result ≠ none)
    (connected : e.graph.Connected p.target) (clean : e.Clean base) :
    Evaluated e replies first p (yielded p) := by
  -- Where no operator fails and no input is missing, every task that finished has a fragment.
  obtain ⟨r, hr⟩ := Option.ne_none_iff_exists'.mp closed
  obtain ⟨done, told⟩ := h.told r hr
  obtain ⟨f, rfl⟩ := h.results_ok connected clean done
  have visited : ∀ v, v ∈ p.visited ↔ p.result? v ≠ none := fun v => h.visited_iff closed
  refine ⟨fun v => ?_, h.underway.once, fun v => ?_, h.nodup_computed closed rec_, ?_, ?_, told⟩
  · rw [visited v, ← Graph.upstream_iff]
    constructor
    · intro finished
      obtain ⟨s, hs⟩ := Option.ne_none_iff_exists'.mp finished
      refine h.underway.within v ?_
      rw [Pass.result?_eq_some.mp hs]
      exact Option.some_ne_none _
    · intro up
      obtain ⟨g, hg⟩ := h.result_of_upstream done up
      rw [hg]
      exact Option.some_ne_none _
  · rw [h.mem_computed closed rec_, visited v]
    constructor
    · rintro ⟨i, c, low, hc, rfl⟩
      exact (h.computation_of_closed closed connected clean low hc).2.2.2
    · intro finished
      obtain ⟨s, hs⟩ := Option.ne_none_iff_exists'.mp finished
      obtain ⟨g, rfl⟩ := h.results_ok connected clean hs
      obtain ⟨i, c, low, hc, name, -⟩ := h.computation_of_ok hs
      exact ⟨i, c, low, hc, name⟩
  · rw [rec_.computed]
    exact h.evaluates closed connected clean rec_.threaded fun i hi => ((h.mem_runs closed rec_).mp hi).1
  · rw [hr, yielded_eq done]

end Solo

/-! ## From a state of rest -/

/-- Where no step is possible, nothing goes on. -/
theorem Ledger.calm_of_rest (h : Ledger replies draws e) (total : AlwaysReplies replies)
    (rest : ∀ event, e.step event = none) : Calm e := by
  -- A task that could go on, a pass that could close and an open computation would each make a step possible.
  have stuck : ¬ ∃ event turn, e.step event = some turn ∧ event.Allowed replies e := by
    rintro ⟨event, turn, possible, -⟩
    rw [rest event] at possible
    cases possible
  refine ⟨fun j q hq => ⟨fun v x hx => ?_, fun unclosed => ?_⟩, fun i c hc => ?_⟩
  · cases x with
    | finished r => exact .inl ⟨r, rfl⟩
    | fresh =>
      have possible := rest (.begin j v)
      simp [step, hq, hx] at possible
    | waiting i =>
      obtain ⟨c, hc, -⟩ := h.tasks j q hq v _ hx
      exact absurd (exists_step_waiting total h hq hx hc) stuck
    | gathering needs =>
      refine .inr ⟨needs, rfl, ?_, fun sideBySide => ?_⟩
      · have possible := rest (.proceed j v)
        by_contra ready
        rw [Bool.not_eq_false] at ready
        simp only [step, hq, hx, ready, Option.bind_eq_bind, Option.bind_some, if_true] at possible
        split at possible <;> cases possible
      · have possible := rest (.launch j v)
        by_contra pending
        simp [step, hq, hx, sideBySide, pending] at possible
  · cases done : q.result? q.target with
    | none => rfl
    | some r =>
      have possible := rest (.close j)
      simp [step, hq, unclosed, done] at possible
  · cases stage : c.stage with
    | ended r => exact ⟨r, rfl⟩
    | queued =>
      obtain ⟨q, hq⟩ := h.passes i c hc
      have possible := rest (.run i)
      simp [step, hc, hq, stage] at possible
    | painting request resume =>
      have possible := rest (.paint i (.error .notConfigured))
      simp [step, hc, stage] at possible

theorem start_ok {n : Nat} {target : Label} {resolution : Json} {r : Extent} (salt : String)
    (positive : resolutionOf resolution = .ok r) (acyclic : e.graph.checkAcyclic target = .ok ()) :
    ∃ turn, e.start n target resolution salt = .ok turn := by
  rw [start, positive, acyclic]
  exact ⟨_, rfl⟩

/-- Where nothing else goes on a pass can be started, and runs alone. -/
theorem Calm.starts {u : Usage} {n : Nat} {target : Label} {resolution : Json} {r : Extent} (salt : String)
    (calm : Calm e) (ledger : Ledger u.replies draws e) (there : n < e.evaluators.length)
    (positive : resolutionOf resolution = .ok r) (acyclic : e.graph.checkAcyclic target = .ok ()) :
    ∃ turn p, e.start n target resolution salt = .ok turn ∧ Started e n target salt p turn.engine ∧
      p.resolution = r ∧ Grows e turn.engine ∧
      Solo u.replies draws e.passes.length e.computations.length (e.cacheOf n).entries p turn.engine := by
  obtain ⟨turn, started⟩ := start_ok (n := n) salt positive acyclic
  obtain ⟨p, hr, s⟩ := started_of_start started
  have opened : Grows e turn.engine := by
    obtain ⟨log, state⟩ := s.state
    rw [state]
    exact (ledger.addPass (s.evaluator ▸ there) (s.target ▸ s.tasks) log).2
  exact ⟨turn, p, started, s, Except.ok.inj (hr.symm.trans positive), opened, calm.solo ledger there s⟩

/-- A run keeps the record of the runs of operators. -/
theorem Solo.recorded_steps {e₀ : Engine} {p₀ : Pass} {draws₀ : Draws}
    (h : Solo replies draws₀ k base [] p₀ e₀) (rec_ : Recorded e₀ draws₀ base first p₀ []) {m : Nat}
    (run : Steps replies m e₀ e) :
    ∃ draws p runs, Solo replies draws k base [] p e ∧ Recorded e draws base first p runs ∧
      remaining e p + m ≤ remaining e₀ p₀ ∧ Grows e₀ e ∧ e.graph = e₀.graph := by
  obtain ⟨draws, p, solo, ⟨runs, recorded⟩, rest⟩ :=
    h.along (P := fun draws p e => ∃ runs, Recorded e draws base first p runs) ⟨[], rec_⟩
      (fun move _ _ ⟨_, recorded⟩ => move.recorded recorded) run
  exact ⟨draws, p, runs, solo, recorded, rest⟩

/-- Evaluation computes what the graph means, and runs every operator once. A pass is started where
nothing else goes on and its cache holds nothing. Whatever order its steps are made in, there are only so
many of them, one is possible until the pass is closed, and if no operator has failed by then the pass has
evaluated the target. -/
theorem evaluates_target {u : Usage} {settings : Settings} {canRender : Bool} {digest : Digest} {n : Nat}
    {target : Label} {resolution : Json} {r : Extent} (salt : String)
    (run : Reaches u (blank settings canRender digest) e) (rest : ∀ event, e.step event = none)
    (there : n < e.evaluators.length) (empty : (e.cacheOf n).entries = [])
    (capacity : 0 ≤ settings.maxCacheEntries) (total : AlwaysReplies u.replies)
    (positive : resolutionOf resolution = .ok r) (acyclic : e.graph.checkAcyclic target = .ok ())
    (connected : e.graph.Connected target) :
    ∃ turn, e.start n target resolution salt = .ok turn ∧
      ∃ bound, ∀ m e', Steps u.replies m turn.engine e' → m ≤ bound ∧
        e'.graph = e.graph ∧ e'.settings = settings ∧ e'.canRender = canRender ∧
        ∃ p, e'.passes[e.passes.length]? = some p ∧ p.evaluator = n ∧ p.target = target ∧
          p.resolution = r ∧
          (p.result = none → ∃ event turn', e'.step event = some turn' ∧ event.Allowed u.replies e') ∧
          (p.result ≠ none → (∀ c ∈ e'.computations.drop e.computations.length, ¬ e'.Raised u.replies c) →
            ∃ F, Evaluated e' u.replies ⟨salt, (e.evaluators.getD n default).counter⟩ p F) := by
  obtain ⟨draws, ledger, old⟩ := run.ledger
    (blank_ledger u.replies settings canRender digest fun _ => default)
  obtain ⟨turn, started⟩ := start_ok (n := n) salt positive acyclic
  obtain ⟨p, hr, s⟩ := started_of_start started
  rw [positive] at hr
  obtain rfl := Except.ok.inj hr
  have solo := (ledger.calm_of_rest total rest).solo ledger there s
  rw [empty] at solo
  obtain ⟨log, state⟩ := s.state
  -- Nothing has run when the pass starts, and the run lemma carries the empty record on.
  have first : Recorded turn.engine draws e.computations.length
      ⟨salt, (e.evaluators.getD n default).counter⟩ p [] := by
    refine ⟨s.computed, fun i => ?_, .nil, s.ids ▸ .none⟩
    simp only [List.not_mem_nil, false_iff, not_and]
    rintro hi ⟨c, hc, -⟩
    rw [state] at hc
    exact absurd (List.getElem?_eq_some_iff.mp hc).1 (Nat.not_lt.mpr hi)
  refine ⟨turn, started, remaining turn.engine p, fun m e' steps => ?_⟩
  obtain ⟨draws', q, runs, solo', recorded, less, grows, graph⟩ := solo.recorded_steps first steps
  have later := solo.later grows solo'.underway
  have opened : turn.engine.settings = settings ∧ turn.engine.canRender = canRender ∧
      turn.engine.graph = e.graph := by
    rw [state]
    exact ⟨old.settings, old.canRender, rfl⟩
  have settings' : e'.settings = settings := grows.settings.trans opened.1
  refine ⟨by omega, graph.trans opened.2.2, settings', grows.canRender.trans opened.2.1, q,
    solo'.underway.pass, later.evaluator.trans s.evaluator, later.target.trans s.target, later.resolution,
    solo'.exists_step total, fun closed none_ => ?_⟩
  refine ⟨yielded q, solo'.evaluated recorded closed ?_ (solo'.ledger.clean (settings' ▸ capacity) none_)⟩
  rw [graph, opened.2.2, later.target, s.target]
  exact connected

/-- Events that are possible one after another are steps, if the back-end may reply as they say. -/
theorem Steps.through (events : List Event) : ∀ {m : Nat} {e' : Engine},
    (∀ event ∈ events, ∀ e'' : Engine, event.Allowed replies e'') → Steps replies m e e' →
      e'.possible events = true → Steps replies (m + events.length) e (events.foldl after e') := by
  induction events with
  | nil => exact fun _ before _ => before
  | cons event rest ih =>
    intro m e' allowed before h
    rw [possible, Bool.and_eq_true] at h
    obtain ⟨turn, step⟩ := Option.isSome_iff_exists.mp h.1
    have next : Steps replies (m + 1) e (e'.after event) := by
      simp only [after, step, Option.map_some, Option.getD_some]
      exact .more before step (allowed event List.mem_cons_self e')
    have done := ih (fun event there => allowed event (List.mem_cons_of_mem _ there)) next h.2
    rw [Nat.add_assoc, Nat.add_comm 1] at done
    exact done

/-- The back-end may reply anything. -/
theorem Steps.follow (anything : ∀ request reply, replies request reply) (events : List Event) {m : Nat} {e' : Engine}
    (before : Steps replies m e e') (able : e'.possible events = true) :
    Steps replies (m + events.length) e (events.foldl after e') := by
  refine .through events (fun event _ e'' => ?_) before able
  cases event with
  | paint index reply => exact fun _ request _ _ _ => anything request reply
  | _ => trivial

end Engine

/-- Whether a computation has ended with a fragment. -/
def Stage.isOk : Stage → Bool
  | .ended (.ok _) => true
  | _ => false

namespace Engine

/-- An engine whose graph puts out a colour. -/
def shown : Engine :=
  { (blank {} false fun _ => "").addEvaluator none with
    graph :=
      { nodes := [⟨.text "o", .output, []⟩, ⟨.text "c", .color, []⟩]
        edges := [⟨.text "c", .text "out", .text "o", .text "in"⟩] } }

/-- The events of a pass for the output, one after another. -/
def shownEvents : List Event :=
  [.begin 0 (.text "o"), .launch 0 (.text "o"), .begin 0 (.text "c"), .run 0, .deliver 0 (.text "c"),
    .proceed 0 (.text "o"), .run 1, .deliver 0 (.text "o"), .close 0]

/-- The engine when the pass for the output is closed. -/
def shownEnd : Engine := shownEvents.foldl after (shown.opened (.text "o") (.whole 8) "s")

/-- The output yields what the colour yields, and each has been computed once. -/
theorem evaluates_target_shown : ∃ (e : Engine) (p : Pass) (F : Label → Fragment),
    Evaluated e (fun _ _ => True) ⟨"s", 0⟩ p F ∧ p.computed = [.text "c", .text "o"] ∧
    F (.text "o") = ⟨"<rect x=\"0\" y=\"0\" width=\"8\" height=\"8\" fill=\"rgb(255,255,255)\"/>", []⟩ := by
  have opens : Reaches ⟨fun _ _ => True, fun _ => True, fun _ _ => True, fun _ _ => True⟩
      (blank {} false fun _ => "") shown :=
    (Relation.ReflTransGen.single (.opens trivial)).tail (.edits trivial)
  have rest : ∀ event, shown.step event = none := by
    intro event
    cases event <;> rfl
  have connected : shown.graph.Connected (.text "o") := by
    intro v n hv node socket required
    have ancestors : shown.graph.ancestors (.text "o") = [.text "c"] := by decide +kernel
    rw [ancestors, List.mem_singleton] at hv
    rcases hv with rfl | rfl
    · obtain rfl : n = ⟨.text "o", .output, []⟩ := (Option.some.inj node).symm
      obtain rfl : socket = "in" := List.mem_singleton.mp required
      exact ⟨(.text "in", .text "c"), by decide +kernel, rfl⟩
    · obtain rfl : n = ⟨.text "c", .color, []⟩ := (Option.some.inj node).symm
      cases required
  obtain ⟨turn, started, bound, all⟩ := @evaluates_target shown _ _ _ _ 0 (.text "o") (.whole 8)
    (.pixels 8) "s" opens rest (by decide) rfl (by decide) (fun _ => ⟨.error .notConfigured, trivial⟩) rfl
    (by with_unfolding_all rfl) connected
  have opened : turn.engine = shown.opened (.text "o") (.whole 8) "s" := by
    rw [Engine.opened, started]
  rw [opened] at all
  have able : (shown.opened (.text "o") (.whole 8) "s").possible shownEvents = true := by decide +kernel
  have steps := (Steps.none _).follow (fun _ _ => trivial) shownEvents able
  obtain ⟨-, -, -, -, p, pass, -, target, -, -, evaluated⟩ := all _ _ steps
  have record : (shownEnd.passes[0]?).map (fun p => (p.computed, p.result.bind Except.toOption)) =
      some ([.text "c", .text "o"],
        some ⟨"<rect x=\"0\" y=\"0\" width=\"8\" height=\"8\" fill=\"rgb(255,255,255)\"/>", []⟩) := by
    decide +kernel
  have ended : (shownEnd.computations.all (·.stage.isOk)) = true := by decide +kernel
  change shownEnd.passes[0]? = some p at pass
  rw [pass, Option.map_some] at record
  obtain ⟨computed, result⟩ := Prod.mk.inj (Option.some.inj record)
  obtain ⟨F, meaning⟩ := evaluated (fun unclosed => by rw [unclosed] at result; cases result) fun c hc => by
    rintro ⟨failure, ids, stage, -⟩
    have ok := List.all_eq_true.mp ended c (List.mem_of_mem_drop hc)
    rw [stage] at ok
    cases ok
  refine ⟨shownEnd, p, F, meaning, computed, ?_⟩
  rw [meaning.result, target] at result
  exact Option.some.inj result

end Engine

end VectorGraph
