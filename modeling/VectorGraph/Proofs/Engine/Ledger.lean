import VectorGraph.Proofs.Engine.Books

/-!
What every state of the engine says about the computations that were started.

Each computation that has come to something did so by a run of the operator of its node on the
parameters and the inputs that it was asked for, and each input of it is what an earlier computation
has ended with. What a node of a pass holds is what a computation for that node has ended with. All of
this is the `Ledger`, which every move keeps; that later states still tell what earlier ones told is
`Engine.Grows`.

The ids that a run starts from are no longer in the state once the run is over. The ledger is therefore
kept together with a record of them, which only grows.
-/
namespace VectorGraph

/-- A run of the operator of a node: what it does at once, and the ids that it leaves. -/
def Node.perform (node : Node) (settings : Settings) (canRender : Bool) (resolution : Extent)
    (inputs : Inputs) (ids : IdSource) : Except Failure Work × IdSource :=
  let context : Context := { settings, resolution, canRender, node := node.id.nameText }
  (node.kind.operator context node.params inputs).run.run ids

/-- For every computation the ids that its run started from. -/
abbrev Draws := Nat → IdSource

namespace Engine

variable {e e' : Engine} {replies : Replies} {draws : Draws}

/-- The resolution at which a computation is run: that of its pass. -/
def extentOf (e : Engine) (c : Computation) : Extent :=
  ((e.passes[c.pass]?).map (·.resolution)).getD default

/-- The key that a computation was asked for. -/
def keyOf (e : Engine) (c : Computation) : CacheKey := e.keyFor (e.extentOf c) c.node c.inputs

/-- The run of the operator of a computation. -/
def runOf (e : Engine) (c : Computation) (ids : IdSource) : Except Failure Work × IdSource :=
  c.node.perform e.settings e.canRender (e.extentOf c) c.inputs ids

/-- The caches of the evaluators after one of them was replaced. -/
theorem cacheOf_setCache {n m : Nat} (there : e.storeOf m < e.caches.length) (new : Cache) :
    (e.setCache n new).cacheOf m = if e.storeOf n = e.storeOf m then new else e.cacheOf m :=
  getD_set there default

/-- What a computation has come to is what a run of its operator can come to. Where fragments cannot
be stored, a computation fails although its operator did not. -/
inductive Worked (e : Engine) (replies : Replies) (ids : IdSource) (c : Computation) : Prop where
  | queued (stage : c.stage = .queued)
  | painting {request : RasterRequest} {resume : Except RasterFault Picture → Outcome}
      (stage : c.stage = .painting request resume)
      (work : (e.runOf c ids).1 = .ok (.paint request resume))
  | ended {answer result : Except Failure Fragment} (stage : c.stage = .ended answer)
      (yields : Work.Yields replies (e.runOf c ids).1 result)
      (answered : ∀ f, answer = .ok f → result = .ok f)
      (accepted : 0 ≤ e.settings.maxCacheEntries → answer = result)

/-- When inputs are taken one by one, those before the pending ones are finished and could be taken in.
-/
def TakenIn (e : Engine) (p : Pass) (needs : Gathering) : Prop :=
  e.settings.concurrentSiblings = false → ∃ taken, needs.inputs = taken ++ needs.pending ∧
    ∀ i ∈ taken, ∃ r, p.result? i.2 = some r ∧ Pass.Passable r

/-- What a task of a pass holds comes from a computation for its node, or from its sources. -/
def Backed (e : Engine) (p : Pass) (v : Label) : Progress → Prop
  | .gathering needs => e.TakenIn p needs
  | .waiting i => ∃ c : Computation, e.computations[i]? = some c ∧ c.node.id = v ∧
      c.store = e.storeOf p.evaluator ∧ (e.extentOf c).count = p.resolution.count
  | .finished (.ok f) => ∃ (i : Nat) (c : Computation), e.computations[i]? = some c ∧
      c.stage = .ended (.ok f) ∧ c.node.id = v ∧
      c.store = e.storeOf p.evaluator ∧ (e.extentOf c).count = p.resolution.count
  | _ => True

/-- What is true of the computations in every state. -/
structure Ledger (replies : Replies) (draws : Draws) (e : Engine) : Prop where
  books : Books e.keyOf e.caches e.computations
  capacity : ∀ (s : Nat) (cache : Cache), e.caches[s]? = some cache →
    cache.capacity = e.settings.maxCacheEntries
  stores : ∀ (n : Nat) (v : Evaluator), e.evaluators[n]? = some v → v.store < e.caches.length
  evaluators : ∀ (k : Nat) (p : Pass), e.passes[k]? = some p → p.evaluator < e.evaluators.length
  passes : ∀ (i : Nat) (c : Computation), e.computations[i]? = some c → ∃ p, e.passes[c.pass]? = some p
  works : ∀ (i : Nat) (c : Computation), e.computations[i]? = some c → e.Worked replies (draws i) c
  past : ∀ (i : Nat) (c : Computation), e.computations[i]? = some c → ∀ x ∈ c.inputs,
    ∃ (j : Nat) (d : Computation), j < i ∧ e.computations[j]? = some d ∧ d.stage = .ended (.ok x.2)
  tasks : ∀ (k : Nat) (p : Pass), e.passes[k]? = some p → ∀ v x, p.progress? v = some x → e.Backed p v x

theorem runOf_eq_workOf {c : Computation} {p : Pass} (pass : e.passes[c.pass]? = some p) :
    e.runOf c p.ids = e.workOf p c := by
  simp only [runOf, extentOf, pass, Option.map_some, Option.getD_some]
  rfl

/-! ## What an entry tells -/

/-- A fragment that the operator of a node may make of the inputs at the resolution. -/
def Makes (e : Engine) (replies : Replies) (resolution : Extent) (node : Node) (inputs : Inputs)
    (f : Fragment) : Prop :=
  ∃ ids, Work.Yields replies (node.perform e.settings e.canRender resolution inputs ids).1 (.ok f)

theorem Ledger.makes (h : Ledger replies draws e) {i : Nat} {c : Computation} {f : Fragment}
    (hc : e.computations[i]? = some c) (stage : c.stage = .ended (.ok f)) :
    Work.Yields replies (e.runOf c (draws i)).1 (.ok f) := by
  cases h.works i c hc with
  | queued hs => rw [stage] at hs; cases hs
  | painting hs => rw [stage] at hs; cases hs
  | ended hs yields answered =>
    rw [stage] at hs
    obtain rfl := Stage.ended.inj hs
    rw [← answered f rfl]
    exact yields

/-- When the back-end replies, a computation comes to what its operator can come to. -/
theorem Ledger.yields_of_reply (h : Ledger replies draws e) {i : Nat} {c : Computation} {request : RasterRequest}
    {resume : Except RasterFault Picture → Outcome} {reply : Except RasterFault Picture}
    (hc : e.computations[i]? = some c) (painted : c.stage = .painting request resume) (allowed : replies request reply) :
    Work.Yields replies (e.runOf c (draws i)).1 (resume reply).result := by
  cases h.works i c hc with
  | queued stage => rw [painted] at stage; cases stage
  | painting stage work =>
    rw [painted] at stage
    obtain ⟨rfl, rfl⟩ := Stage.painting.inj stage
    rw [work]
    exact ⟨reply, allowed, rfl⟩
  | ended stage => rw [painted] at stage; cases stage

/-! ## Later states -/

end Engine

/-- How a task may go on: one that is finished stays as it is, and one that waits for a computation
ends as that computation does. -/
def Progress.Later (cs : List Computation) : Progress → Progress → Prop
  | .finished r, y => y = .finished r
  | .waiting i, y => y = .waiting i ∨
      ∃ (c : Computation) (r : Except Failure Fragment), cs[i]? = some c ∧ c.stage = .ended r ∧ y = .finished r
  | _, _ => True

namespace Progress.Later

variable {cs ds : List Computation} {x y z : Progress}

theorem refl (x : Progress) : x.Later cs x := by
  cases x with
  | fresh => trivial
  | gathering needs => trivial
  | waiting i => exact .inl rfl
  | finished r => rfl

theorem mono (h : x.Later cs y) (later : AllLater cs ds) : x.Later ds y := by
  cases x with
  | fresh => trivial
  | gathering needs => trivial
  | finished r => exact h
  | waiting i =>
    rcases h with h | ⟨c, r, hc, hr, hy⟩
    · exact .inl h
    · obtain ⟨d, hd, hcd⟩ := later i c hc
      exact .inr ⟨d, r, hd, hcd.ended r hr, hy⟩

theorem trans (h : x.Later ds y) (h' : y.Later ds z) : x.Later ds z := by
  cases x with
  | fresh => trivial
  | gathering needs => trivial
  | finished r =>
    obtain rfl : y = .finished r := h
    exact h'
  | waiting i =>
    rcases h with rfl | ⟨c, r, hc, hr, rfl⟩
    · exact h'
    · exact .inr ⟨c, r, hc, hr, h'⟩

end Progress.Later

/-- `q` is `p` later on. -/
structure Pass.Later (cs : List Computation) (p q : Pass) : Prop where
  evaluator : q.evaluator = p.evaluator
  target : q.target = p.target
  resolution : q.resolution = p.resolution
  tasks : ∀ v x, p.progress? v = some x → ∃ y, q.progress? v = some y ∧ x.Later cs y

namespace Pass.Later

variable {cs ds : List Computation} {p q s : Pass}

theorem refl (p : Pass) : p.Later cs p := ⟨rfl, rfl, rfl, fun _ x h => ⟨x, h, .refl x⟩⟩

theorem mono (h : p.Later cs q) (later : AllLater cs ds) : p.Later ds q :=
  ⟨h.evaluator, h.target, h.resolution, fun v x hx => by
    obtain ⟨y, hy, hxy⟩ := h.tasks v x hx
    exact ⟨y, hy, hxy.mono later⟩⟩

theorem trans (h : p.Later ds q) (h' : q.Later ds s) : p.Later ds s :=
  ⟨h'.evaluator.trans h.evaluator, h'.target.trans h.target, h'.resolution.trans h.resolution,
    fun v x hx => by
      obtain ⟨y, hy, hxy⟩ := h.tasks v x hx
      obtain ⟨z, hz, hyz⟩ := h'.tasks v y hy
      exact ⟨z, hz, hxy.trans hyz⟩⟩

/-- A task that is neither finished nor waiting may become anything. -/
theorem set {v : Label} (y : Progress) (h : ∀ x, p.progress? v = some x → x.Later cs y) :
    p.Later cs (p.set v y) := by
  refine ⟨rfl, rfl, rfl, fun u x hx => ?_⟩
  by_cases huv : u = v
  · subst huv
    exact ⟨y, progress?_set_self y (by rw [hx]; exact Option.some_ne_none x), h x hx⟩
  · exact ⟨x, by rw [progress?_set_ne y huv, hx], .refl x⟩

theorem foldl_ask (sources : List Label) : p.Later cs (sources.foldl ask p) := by
  obtain ⟨tasks, same⟩ := exists_foldl_ask sources p
  refine ⟨by rw [same], by rw [same], by rw [same], fun v x hx => ⟨x, ?_, .refl x⟩⟩
  rw [progress?_foldl_ask, hx]
  simp

theorem ask (v : Label) : p.Later cs (p.ask v) := foldl_ask [v]

/-- What was a result is one later on. -/
theorem results (h : p.Later cs q) : ResultsKept p q := by
  intro v r hr
  rw [result?_eq_some] at hr ⊢
  obtain ⟨y, hy, hxy⟩ := h.tasks v _ hr
  rw [hy]
  exact congrArg some hxy

end Pass.Later

namespace Engine

/-- What `e` tells about passes and computations is still so in `e'`. -/
structure Grows (e e' : Engine) : Prop where
  settings : e'.settings = e.settings
  canRender : e'.canRender = e.canRender
  digest : e'.digest = e.digest
  evaluators : ∀ (n : Nat) (v : Evaluator), e.evaluators[n]? = some v →
    ∃ v' : Evaluator, e'.evaluators[n]? = some v' ∧ v'.store = v.store
  computations : AllLater e.computations e'.computations
  passes : ∀ (k : Nat) (p : Pass), e.passes[k]? = some p →
    ∃ q : Pass, e'.passes[k]? = some q ∧ p.Later e'.computations q

namespace Grows

variable {e e' e'' : Engine}

theorem refl (e : Engine) : Grows e e :=
  ⟨rfl, rfl, rfl, fun _ v h => ⟨v, h, rfl⟩, .refl _, fun _ p h => ⟨p, h, .refl p⟩⟩

theorem trans (h : Grows e e') (h' : Grows e' e'') : Grows e e'' := by
  refine ⟨h'.settings.trans h.settings, h'.canRender.trans h.canRender, h'.digest.trans h.digest,
    fun n v hv => ?_, h.computations.trans h'.computations, fun k p hp => ?_⟩
  · obtain ⟨v', hv', hs⟩ := h.evaluators n v hv
    obtain ⟨v'', hv'', hs'⟩ := h'.evaluators n v' hv'
    exact ⟨v'', hv'', hs'.trans hs⟩
  · obtain ⟨q, hq, hpq⟩ := h.passes k p hp
    obtain ⟨s, hs, hqs⟩ := h'.passes k q hq
    exact ⟨s, hs, (hpq.mono h'.computations).trans hqs⟩

/-- One pass goes on. -/
theorem setPass {k : Nat} {p q : Pass} (hp : e.passes[k]? = some p) (h : p.Later e.computations q) :
    Grows e (e.setPass k q) := by
  refine ⟨rfl, rfl, rfl, fun _ v hv => ⟨v, hv, rfl⟩, .refl _, fun j s hs => ?_⟩
  by_cases hjk : j = k
  · subst hjk
    obtain rfl := Option.some.inj (hp.symm.trans hs)
    exact ⟨q, List.getElem?_set_self (List.getElem?_eq_some_iff.mp hp).1, h⟩
  · exact ⟨s, getElem?_set_of_ne hjk hs, .refl s⟩

/-- Computations go on. -/
theorem compute {caches : List Cache} {cs : List Computation} (h : AllLater e.computations cs) :
    Grows e { e with caches := caches, computations := cs } :=
  ⟨rfl, rfl, rfl, fun _ v hv => ⟨v, hv, rfl⟩, h, fun _ p hp => ⟨p, hp, .refl p⟩⟩

/-- The graph, the lines reported and the requests made do not count. -/
theorem restate (h : Grows e e') (g : Graph) (log : List String) (requests : List RasterRequest) :
    Grows e { e' with graph := g, log := log, requests := requests } :=
  ⟨h.settings, h.canRender, h.digest, h.evaluators, h.computations, h.passes⟩

theorem evaluators_lt (h : Grows e e') {n : Nat} (hn : n < e.evaluators.length) : n < e'.evaluators.length := by
  obtain ⟨v', hv', -⟩ := h.evaluators n _ (List.getElem?_eq_getElem hn)
  exact (List.getElem?_eq_some_iff.mp hv').1

theorem storeOf (h : Grows e e') {n : Nat} (hn : n < e.evaluators.length) :
    e'.storeOf n = e.storeOf n := by
  obtain ⟨v', hv', hs⟩ := h.evaluators n _ (List.getElem?_eq_getElem hn)
  simp [Engine.storeOf, List.getD, hv', hs, List.getElem?_eq_getElem hn]

theorem extentOf (h : Grows e e') {c d : Computation} {p : Pass} (hp : e.passes[c.pass]? = some p)
    (hcd : c.Later d) : e'.extentOf d = e.extentOf c := by
  obtain ⟨q, hq, hpq⟩ := h.passes _ p hp
  simp [Engine.extentOf, hcd.pass, hp, hq, hpq.resolution]

theorem keyOf (h : Grows e e') {c d : Computation} {p : Pass} (hp : e.passes[c.pass]? = some p)
    (hcd : c.Later d) : e'.keyOf d = e.keyOf c := by
  simp [Engine.keyOf, keyFor, h.extentOf hp hcd, hcd.node, hcd.inputs, h.digest]

theorem runOf (h : Grows e e') {c d : Computation} {p : Pass} (hp : e.passes[c.pass]? = some p)
    (hcd : c.Later d) (ids : IdSource) : e'.runOf d ids = e.runOf c ids := by
  simp [Engine.runOf, h.extentOf hp hcd, hcd.node, hcd.inputs, h.settings, h.canRender]

/-- What a task holds is still backed, later on. -/
theorem backed (h : Grows e e') {draws : Draws} {replies : Replies} (ledger : Ledger replies draws e)
    {p q : Pass} (hp : p.evaluator < e.evaluators.length) (hpq : p.Later e'.computations q) {v : Label}
    {x : Progress} (hx : e.Backed p v x) : e'.Backed q v x := by
  -- The computation that backs a task moves on, but keeps its node, its cache and its resolution.
  have later : ∀ (i : Nat) (c : Computation), e.computations[i]? = some c → c.node.id = v →
      c.store = e.storeOf p.evaluator → (e.extentOf c).count = p.resolution.count →
      ∃ d : Computation, e'.computations[i]? = some d ∧ c.Later d ∧ d.node.id = v ∧
        d.store = e'.storeOf q.evaluator ∧ (e'.extentOf d).count = q.resolution.count := by
    intro i c hc hv hs hr
    obtain ⟨d, hd, hcd⟩ := h.computations i c hc
    obtain ⟨r, hpass⟩ := ledger.passes i c hc
    refine ⟨d, hd, hcd, hcd.node ▸ hv, ?_, ?_⟩
    · rw [hcd.store, hs, hpq.evaluator, h.storeOf hp]
    · rw [h.extentOf hpass hcd, hr, hpq.resolution]
  cases x with
  | fresh => trivial
  | gathering needs =>
    intro oneByOne
    obtain ⟨taken, split, passed⟩ := hx (h.settings ▸ oneByOne)
    refine ⟨taken, split, fun i hi => ?_⟩
    obtain ⟨r, hr, hp⟩ := passed i hi
    exact ⟨r, hpq.results _ r hr, hp⟩
  | waiting i =>
    obtain ⟨c, hc, hv, hs, hr⟩ := hx
    obtain ⟨d, hd, -, hd'⟩ := later i c hc hv hs hr
    exact ⟨d, hd, hd'⟩
  | finished r =>
    cases r with
    | error failure => trivial
    | ok f =>
      obtain ⟨i, c, hc, hstage, hv, hs, hr⟩ := hx
      obtain ⟨d, hd, hcd, hd'⟩ := later i c hc hv hs hr
      exact ⟨i, d, hd, hcd.ended _ hstage, hd'⟩

end Grows

end Engine

end VectorGraph
