import VectorGraph.Proofs.Engine.Solo
import VectorGraph.Proofs.Operator.Registry

/-!
Passes one after another.

Where passes do not overlap and the graph is edited between them only, the engine is at rest, or one pass
runs alone. Then ids are drawn in one line: each run of an operator goes on from where the run before has
stopped, and a pass from where the pass before has stopped (`Engine.Apart`). What the runs make is derived
from what earlier runs have made.
-/
namespace VectorGraph

/-- The source of an image is written as it is, and must not break out of its value or refer to an id. -/
def Node.Safe (node : Node) : Prop := node.kind = .image → Operator.SafeSource node.params

/-- Every image of a graph has a safe source. -/
def Graph.Safe (g : Graph) : Prop := ∀ node ∈ g.nodes, node.Safe

theorem Graph.Safe.node {g : Graph} (h : g.Safe) {v : Label} {n : Node} (node : g.node? v = some n) :
    n.Safe := h n (List.mem_of_find?_eq_some node)

namespace Engine

variable {e e' : Engine} {replies : Replies} {draws draws' : Draws} {bound bound' : Int} {k base : Nat}
  {stock : List (CacheKey × Fragment)} {p p' : Pass}

/-- Passes are started one after another, and the graph is edited between them. A salt may be empty; salts
are drawn as hexadecimal digits, all that matters is that they are made of what ids are made of. Entries may
be dropped at any time. -/
def inTurn (replies : Replies) : Usage where
  replies := replies
  mayOpen _ := False
  mayStart e salt := (∀ p ∈ e.passes, p.result ≠ none) ∧ ∀ c ∈ salt.toList, Markup.isIdChar c = true
  mayEdit e g := (∀ p ∈ e.passes, p.result ≠ none) ∧ g.Safe

/-! ## What is kept when entries are dropped -/

/-- The cache of an evaluator drops entries while a pass runs alone. -/
theorem Solo.drop {u : Usage} (h : Solo u.replies draws k base stock p e) {n : Nat}
    (hn : n < e.evaluators.length) {new : Cache} (running : new.running = (e.cacheOf n).running)
    (issued : new.issued = (e.cacheOf n).issued) (capacity : new.capacity = (e.cacheOf n).capacity)
    (entries : ∀ x ∈ new.entries, x ∈ (e.cacheOf n).entries) :
    Solo u.replies draws k base stock p (e.setCache n new) := by
  obtain ⟨ledger, grows⟩ := h.ledger.drop hn running issued capacity entries
  have onward : Onward e (e.setCache n new) p p :=
    h.ledger.onward h.underway.pass grows rfl rfl rfl (.refl p) fun _ hu => hu
  have underway : Underway (e.setCache n new) k base stock p := { h.underway with
    others := fun j q hq hne => ⟨(h.underway.others j q hq hne).tasks, (h.underway.others j q hq hne).closed⟩
    sound := fun v x hx => onward.sound (h.underway.sound v x hx) }
  refine ⟨ledger, underway, fun x hx => h.stocked x ?_, h.acyclic, h.told⟩
  have there := h.ledger.cacheOf (h.ledger.evaluators k p h.underway.pass)
  rw [cacheOf_setCache (List.getElem?_eq_some_iff.mp there).1] at hx
  split at hx
  · next same =>
    have old := entries x hx
    unfold cacheOf at old ⊢
    rw [← same]
    exact old
  · exact hx

/-! ## Ids in one line -/

/-- The ids that the run of a computation leaves. -/
def left (e : Engine) (draws : Draws) (i : Nat) (c : Computation) : IdSource := (e.runOf c (draws i)).2

/-- The operator of a computation has been run. -/
def Ran (e : Engine) (i : Nat) (c : Computation) : Prop :=
  e.computations[i]? = some c ∧ c.stage ≠ .queued

/-- Runs of operators draw different ids, none of them above the bound. -/
structure Apart (draws : Draws) (bound : Int) (e : Engine) : Prop where
  salted : ∀ (i : Nat) (c : Computation), e.Ran i c → (draws i).Salted
  below : ∀ (i : Nat) (c : Computation), e.Ran i c → (e.left draws i c).counter ≤ bound
  apart : ∀ (i j : Nat) (c d : Computation), e.Ran i c → e.Ran j d → i ≠ j →
    (e.left draws i c).counter ≤ (draws j).counter ∨ (e.left draws j d).counter ≤ (draws i).counter

namespace Apart

theorem raise (h : Apart draws bound e) (le : bound ≤ bound') : Apart draws bound' e :=
  ⟨h.salted, fun i c ran => Int.le_trans (h.below i c ran) le, h.apart⟩

/-- A run that is over is one of the earlier state. -/
theorem back (ledger : Ledger replies draws e) (unrun : Unrun e e') (grows : Grows e e') {i : Nat}
    {d : Computation} (ran : e'.Ran i d) :
    ∃ c, e.Ran i c ∧ ∀ draws : Draws, e'.left draws i d = e.left draws i c := by
  obtain ⟨hd, begun⟩ := ran
  cases hc : e.computations[i]? with
  | none => exact absurd (unrun.new i d hc hd) begun
  | some c =>
    obtain ⟨d', hd', later⟩ := grows.computations i c hc
    obtain rfl := Option.some.inj (hd'.symm.trans hd)
    obtain ⟨q, hq⟩ := ledger.passes i c hc
    refine ⟨c, ⟨hc, fun queued => begun ((unrun.computations i c _ hc hd).mpr queued)⟩, fun draws => ?_⟩
    unfold left
    rw [grows.runOf hq later]

/-- Where no operator is run no id is drawn. -/
theorem kept (h : Apart draws bound e) (ledger : Ledger replies draws e) (unrun : Unrun e e')
    (grows : Grows e e') : Apart draws bound e' := by
  refine ⟨fun i d hd => ?_, fun i d hd => ?_, fun i j c d hc hd differ => ?_⟩
  · obtain ⟨c, hc, -⟩ := back ledger unrun grows hd
    exact h.salted i c hc
  · obtain ⟨c, hc, same⟩ := back ledger unrun grows hd
    rw [same]
    exact h.below i c hc
  · obtain ⟨c', hc', same⟩ := back ledger unrun grows hc
    obtain ⟨d', hd', same'⟩ := back ledger unrun grows hd
    rw [same, same']
    exact h.apart i j c' d' hc' hd' differ

/-- Where the operator of `i` is run, a run that is over is this one or one of the earlier state. -/
theorem back_or_run (ledger : Ledger replies draws e) (grows : Grows e e') {i : Nat} {c d : Computation}
    (hc : e.computations[i]? = some c) (pass : e.passes[c.pass]? = some p)
    (computations : e'.computations = e.computations.set i d) {j : Nat} {x : Computation} (ran : e'.Ran j x) :
    (j = i ∧ x.pass = c.pass ∧ e'.left (Function.update draws i p.ids) j x = (e.workOf p c).2) ∨
      (j ≠ i ∧ e.Ran j x ∧ e'.left (Function.update draws i p.ids) j x = e.left draws j x) := by
  obtain ⟨hx, begun⟩ := ran
  by_cases hji : j = i
  · subst hji
    obtain ⟨x', hx', later⟩ := grows.computations j c hc
    obtain rfl := Option.some.inj (hx'.symm.trans hx)
    refine .inl ⟨rfl, later.pass, ?_⟩
    unfold left
    rw [Function.update_self, grows.runOf pass later, runOf_eq_workOf pass]
  · have old := hx
    rw [computations, List.getElem?_set_ne (Ne.symm hji)] at old
    obtain ⟨x', hx', later⟩ := grows.computations j x old
    obtain rfl := Option.some.inj (hx'.symm.trans hx)
    obtain ⟨q, hq⟩ := ledger.passes j _ old
    refine .inr ⟨hji, ⟨old, begun⟩, ?_⟩
    unfold left
    rw [Function.update_of_ne hji, grows.runOf hq later]

/-- A run goes on from the bound, and leaves a new one. -/
theorem run (h : Apart draws p.ids.counter e) (ledger : Ledger replies draws e) (grows : Grows e e') {i : Nat}
    {c d : Computation} (hc : e.computations[i]? = some c) (pass : e.passes[c.pass]? = some p)
    (computations : e'.computations = e.computations.set i d)
    (salted : p.ids.Salted) (before : p.ids.Before (e.workOf p c).2) :
    Apart (Function.update draws i p.ids) (e.workOf p c).2.counter e' := by
  -- An operator that has run is the one that ran now, from the bound on, or one that left off below it.
  have cases_of := fun (j : Nat) (x : Computation) => back_or_run (j := j) (x := x) ledger grows hc pass computations
  have start : ∀ {j : Nat}, j ≠ i → Function.update draws i p.ids j = draws j :=
    fun hj => Function.update_of_ne hj _ _
  refine ⟨fun j x hx => ?_, fun j x hx => ?_, fun j l x y hx hy differ => ?_⟩
  · rcases cases_of j x hx with ⟨rfl, -⟩ | ⟨hj, ran, -⟩
    · rw [Function.update_self]
      exact salted
    · rw [start hj]
      exact h.salted j x ran
  · rcases cases_of j x hx with ⟨-, -, leaves⟩ | ⟨-, ran, leaves⟩
    · rw [leaves]
    · rw [leaves]
      exact Int.le_trans (h.below j x ran) before.counter
  · rcases cases_of j x hx with ⟨rfl, -, leaves⟩ | ⟨hj, ran, leaves⟩ <;>
      rcases cases_of l y hy with ⟨rfl, -, leaves'⟩ | ⟨hl, ran', leaves'⟩
    · exact absurd rfl differ
    · refine .inr ?_
      rw [leaves', Function.update_self]
      exact h.below l y ran'
    · refine .inl ?_
      rw [leaves, Function.update_self]
      exact h.below j x ran
    · rw [leaves, leaves', start hj, start hl]
      exact h.apart j l x y ran ran' differ

end Apart

/-! ## What is made in turn -/

/-- Whatever a computation has ended with is derived from what earlier ones have ended with. -/
theorem Ledger.derived (ledger : Ledger replies draws e)
    (nodes : ∀ (i : Nat) (c : Computation), e.computations[i]? = some c → c.node.Safe)
    (salted : ∀ (i : Nat) (c : Computation), e.Ran i c → (draws i).Salted) (i : Nat) :
    ∀ c : Computation, e.computations[i]? = some c → (∀ x ∈ c.inputs, x.2.Proper) ∧
      ∀ f, c.stage = .ended (.ok f) →
        Fragment.Derived (c.inputs.map (·.2)) (draws i) (e.left draws i c) f := by
  induction i using Nat.strong_induction_on with
  | h i ih =>
    intro c hc
    have proper : ∀ x ∈ c.inputs, x.2.Proper := by
      intro x hx
      obtain ⟨j, d, less, hd, ended⟩ := ledger.past i c hc x hx
      exact ((ih j less d hd).2 x.2 ended).proper
    refine ⟨proper, fun f ended => ?_⟩
    have ran : e.Ran i c := ⟨hc, fun queued => by rw [queued] at ended; cases ended⟩
    exact Work.Yields.derived (c.node.kind.derives _ _ _ _ (nodes i c hc) (salted i c ran) proper)
      (ledger.makes hc ended)

/-- How far the engine is: at rest, or with one pass that runs alone. The ids drawn so far are below the
counter of the evaluator, or of the pass. -/
inductive Phase (replies : Replies) (draws : Draws) (e : Engine) : Prop where
  | resting (calm : Calm e) (apart : ∀ v : Evaluator, e.evaluators[0]? = some v → Apart draws v.counter e)
  | running {k base : Nat} {stock : List (CacheKey × Fragment)} {p : Pass}
      (solo : Solo replies draws k base stock p e) (unclosed : p.result = none) (salted : p.ids.Salted)
      (apart : Apart draws p.ids.counter e)

/-- What is true of every state where passes follow one another. -/
structure Orderly (replies : Replies) (draws : Draws) (e : Engine) : Prop where
  ledger : Ledger replies draws e
  single : e.evaluators.length = 1
  graph : e.graph.Safe
  nodes : ∀ (i : Nat) (c : Computation), e.computations[i]? = some c → c.node.Safe
  told : ∀ (k : Nat) (p : Pass), e.passes[k]? = some p → ∀ r, p.result = some r → p.result? p.target = some r
  phase : Phase replies draws e

theorem Continues.length_passes {q : Pass} {v : Label} {kind : Kind} {inputs : List (Label × Label)}
    (h : Continues e k q v kind inputs e') : e'.passes.length = e.passes.length := by
  cases h with
  | looks gathered complete looked => cases looked <;> exact List.length_set
  | _ => exact List.length_set

/-- No move adds a pass. -/
theorem Move.length_passes (ledger : Ledger replies draws e) (m : Move replies e e') :
    e'.passes.length = e.passes.length := by
  cases m with
  | begins pass fresh known continued => exact continued.length_passes
  | proceeds pass gathering ready continued => exact (ledger.goesOn pass gathering continued).length_passes
  | replies computation painted allowed => rfl
  | _ => exact List.length_set

namespace Orderly

/-- The ids of a pass that runs alone go on in one line. -/
theorem drawn (h : Orderly replies draws e) (solo : Solo replies draws k base stock p e)
    (salted : p.ids.Salted) (apart : Apart draws p.ids.counter e) (solo' : Solo replies draws' k base stock p' e')
    (grows : Grows e e') (drawn : Drawn draws e draws' e') :
    p'.ids.Salted ∧ Apart draws' p'.ids.counter e' := by
  cases drawn with
  | kept unrun =>
    obtain ⟨-, same⟩ := unrun.passes k p p' solo.underway.pass solo'.underway.pass
    rw [same]
    exact ⟨salted, apart.kept h.ledger unrun grows⟩
  | @run _ i c d q computation queued pass computations begun passes =>
    obtain ⟨-, own, -⟩ := solo.underway.own_of_open computation (Computation.open_of_queued queued)
    have hq : e.passes[k]? = some q := own ▸ pass
    obtain rfl := Option.some.inj (hq.symm.trans solo.underway.pass)
    have hp' := solo'.underway.pass
    rw [passes, own, List.getElem?_set_self (List.getElem?_eq_some_iff.mp hq).1] at hp'
    rw [← Option.some.inj hp']
    -- the inputs come from computations that have ended, so that the run is one of proper inputs
    have proper := (h.ledger.derived h.nodes apart.salted i c computation).1
    have before : q.ids.Before (e.workOf q c).2 :=
      (c.node.kind.derives _ _ _ _ (h.nodes i c computation) salted proper).before
    exact ⟨before.salted salted, apart.run h.ledger grows computation pass computations salted before⟩

/-- A computation that is new is one for a node of the graph. -/
theorem nodes_safe (h : Orderly replies draws e) (solo : Solo replies draws k base stock p e)
    (solo' : Solo replies draws' k base stock p' e') (grows : Grows e e') (graph : e'.graph = e.graph)
    (drawn : Drawn draws e draws' e') (i : Nat) (d : Computation) (hd : e'.computations[i]? = some d) :
    d.node.Safe := by
  cases hc : e.computations[i]? with
  | some c =>
    obtain ⟨d', hd', later⟩ := grows.computations i c hc
    obtain rfl := Option.some.inj (hd'.symm.trans hd)
    rw [later.node]
    exact h.nodes i c hc
  | none =>
    have queued : d.stage = .queued := by
      cases drawn with
      | kept unrun => exact unrun.new i d hc hd
      | run computation queued pass computations begun passes =>
        rw [computations, List.getElem?_eq_none] at hd
        · cases hd
        · rw [List.length_set]
          exact List.getElem?_eq_none_iff.mp hc
    have old : base ≤ i := Nat.le_trans solo.underway.length (List.getElem?_eq_none_iff.mp hc)
    rcases (solo'.underway.own i d hd old).2 with waiting | ⟨r, ended, -⟩
    · obtain ⟨-, n, c, node, hc', same, -⟩ := solo'.underway.sound _ _ waiting
      obtain rfl := Option.some.inj (hc'.symm.trans hd)
      rw [same]
      exact (graph ▸ h.graph).node node
    · rw [queued] at ended
      cases ended

/-- What is told of closed passes stays so when no pass is closed. -/
theorem told_unclosed (h : Orderly replies draws e) (grows : Grows e e') (unclosed : Unclosed e e')
    (length : e'.passes.length = e.passes.length) (j : Nat) (q' : Pass) (hq' : e'.passes[j]? = some q')
    (r : Except Failure Fragment) (closed : q'.result = some r) : q'.result? q'.target = some r := by
  have hj : j < e.passes.length := length ▸ (List.getElem?_eq_some_iff.mp hq').1
  have hq := List.getElem?_eq_getElem hj
  obtain ⟨q'', hq'', later⟩ := grows.passes j _ hq
  obtain rfl := Option.some.inj (hq''.symm.trans hq')
  rw [unclosed.2 j _ _ hq hq'] at closed
  rw [later.target]
  exact later.results _ r (h.told j _ hq r closed)

/-- A step of a pass keeps the order. -/
theorem step (h : Orderly replies draws e) (m : Move replies e e') : ∃ draws', Orderly replies draws' e' := by
  cases h.phase with
  | resting calm apart => exact (no_move_of_calm calm m).elim
  | @running k base stock p solo unclosed salted apart =>
    obtain ⟨draws', p', solo', -, grows, graph, drawn⟩ := solo.move m
    obtain ⟨salted', apart'⟩ := h.drawn solo salted apart solo' grows drawn
    have nodes := h.nodes_safe solo solo' grows graph drawn
    refine ⟨draws', ?_⟩
    -- Only the step that closes the pass gives the counter back, and all the ids drawn so far are below it.
    rcases m.closes_or h.ledger with ⟨j, q, r, hq, open_, finished, rfl⟩ | still
    · have evaluators : (e.close j q r).engine.evaluators.length = 1 := by
        rw [← h.single]
        exact List.length_modify ..
      obtain ⟨rfl, rfl⟩ := solo.underway.closes_here hq open_ finished
      have hp' : p' = { q with result := some r } := Option.some.inj (solo'.underway.pass.symm.trans
        (List.getElem?_set_self (List.getElem?_eq_some_iff.mp hq).1))
      subst hp'
      refine ⟨solo'.ledger, evaluators, h.graph, nodes, fun i s hs t ht => ?_, ?_⟩
      · by_cases hij : j = i
        · subst hij
          obtain rfl := Option.some.inj (hs.symm.trans solo'.underway.pass)
          exact (solo'.told t ht).1
        · have old : e.passes[i]? = some s := (List.getElem?_set_ne hij).symm.trans hs
          exact h.told i s old t ht
      · refine .resting (solo'.calm fun open_ => by cases open_) fun v hv => ?_
        have first : q.evaluator = 0 := by
          have low := h.ledger.evaluators j q hq
          have single := h.single
          omega
        change (e.evaluators.modify q.evaluator _)[0]? = some v at hv
        rw [first, List.getElem?_modify_eq] at hv
        obtain ⟨v', -, rfl⟩ := Option.map_eq_some_iff.mp hv
        exact apart'.raise (Int.le_max_right _ _)
    · refine ⟨solo'.ledger, still.1 ▸ h.single, graph ▸ h.graph, nodes,
        h.told_unclosed grows still (m.length_passes h.ledger), .running solo' ?_ salted' apart'⟩
      exact (still.2 k p p' solo.underway.pass solo'.underway.pass).trans unclosed

/-- Where every pass is closed the engine is at rest. -/
theorem rests (h : Orderly replies draws e) (closed : ∀ p ∈ e.passes, p.result ≠ none) :
    Calm e ∧ ∀ v : Evaluator, e.evaluators[0]? = some v → Apart draws v.counter e := by
  cases h.phase with
  | resting calm apart => exact ⟨calm, apart⟩
  | running solo unclosed salted apart =>
    exact absurd unclosed (closed _ (List.mem_of_getElem? solo.underway.pass))

variable {u : Usage}

/-- The cache drops entries. -/
theorem drop (h : Orderly u.replies draws e) {n : Nat} (hn : n < e.evaluators.length) {new : Cache}
    (running : new.running = (e.cacheOf n).running) (issued : new.issued = (e.cacheOf n).issued)
    (capacity : new.capacity = (e.cacheOf n).capacity)
    (entries : ∀ x ∈ new.entries, x ∈ (e.cacheOf n).entries) :
    Orderly u.replies draws (e.setCache n new) := by
  obtain ⟨ledger, grows⟩ := h.ledger.drop hn running issued capacity entries
  have unrun : Unrun e (e.setCache n new) := .of_eq (fun k p p' hp hp' => by
    obtain rfl := Option.some.inj (hp.symm.trans hp')
    exact ⟨rfl, rfl⟩) rfl
  refine ⟨ledger, h.single, h.graph, h.nodes, h.told, ?_⟩
  cases h.phase with
  | resting calm apart =>
    exact .resting (calm.congr rfl rfl rfl) fun v hv => (apart v hv).kept h.ledger unrun grows
  | running solo unclosed salted apart =>
    exact .running (solo.drop hn running issued capacity entries) unclosed salted
      (apart.kept h.ledger unrun grows)

/-- A pass is started. -/
theorem start {n : Nat} {target : Label} {salt : String} (h : Orderly replies draws e)
    (closed : ∀ p ∈ e.passes, p.result ≠ none) (salted : ∀ c ∈ salt.toList, Markup.isIdChar c = true)
    (hn : n < e.evaluators.length) (s : Started e n target salt p e') : Orderly replies draws e' := by
  obtain ⟨calm, apart⟩ := h.rests closed
  have solo := @Calm.solo e e' draws p (inTurn replies) n target salt calm h.ledger hn s
  obtain ⟨log, rfl⟩ := s.state
  obtain ⟨-, grows⟩ := @Ledger.addPass (inTurn replies) e draws h.ledger p (s.evaluator ▸ hn)
    (s.target ▸ s.tasks) log
  have unrun : Unrun e { e with passes := e.passes ++ [p], log := log } := .addPass p log
  have first : n = 0 := by
    have single := h.single
    omega
  subst first
  refine ⟨solo.ledger, h.single, h.graph, h.nodes, fun k q hq r hr => ?_, .running solo s.result ?_ ?_⟩
  · rcases getElem?_concat_cases hq with hq | ⟨-, rfl⟩
    · exact h.told k q hq r hr
    · rw [s.result] at hr
      cases hr
  · rw [s.ids]
    exact salted
  · rw [s.ids]
    have there := List.getElem?_eq_getElem hn
    have counter : (e.evaluators.getD 0 default).counter = e.evaluators[0].counter := by
      rw [List.getD_eq_getElem?_getD, there]
      rfl
    rw [counter]
    exact (apart _ there).kept h.ledger unrun grows

/-- The graph is edited. -/
theorem edit (h : Orderly replies draws e) {g : Graph} (closed : ∀ p ∈ e.passes, p.result ≠ none)
    (safe : g.Safe) : Orderly replies draws { e with graph := g } := by
  obtain ⟨calm, apart⟩ := h.rests closed
  have unrun : Unrun e { e with graph := g } := .of_eq (fun k p p' hp hp' => by
    obtain rfl := Option.some.inj (hp.symm.trans hp')
    exact ⟨rfl, rfl⟩) rfl
  have grows : Grows e { e with graph := g } := (Grows.refl e).restate g e.log e.requests
  exact ⟨h.ledger.restate g e.log e.requests, h.single, safe, h.nodes, h.told,
    .resting (calm.congr rfl rfl rfl) fun v hv => (apart v hv).kept h.ledger unrun grows⟩

/-- Whatever is done in turn keeps the order. -/
theorem change (h : Orderly replies draws e) (m : Change (inTurn replies) e e') :
    ∃ draws', Orderly replies draws' e' := by
  cases m with
  | steps step allowed => exact h.step (move_of_step step allowed)
  | opens may => exact may.elim
  | starts may there started =>
    obtain ⟨p, -, s⟩ := started_of_start started
    exact ⟨draws, h.start may.1 may.2 there s⟩
  | edits may => exact ⟨draws, h.edit may.1 may.2⟩
  | @invalidates n v there =>
    obtain ⟨running, issued, capacity, entries⟩ := (e.cacheOf n).invalidate_shrinks e.graph v
    exact ⟨draws, drop (u := inTurn replies) h there running issued capacity entries⟩
  | @clears n there =>
    have entries : ∀ x ∈ (e.cacheOf n).clear.entries, x ∈ (e.cacheOf n).entries := by
      intro x hx
      cases hx
    exact ⟨draws, @drop e draws (inTurn replies) h n there (e.cacheOf n).clear rfl rfl rfl entries⟩

/-- An engine with one evaluator that has not done anything is in order. -/
theorem first (replies : Replies) (settings : Settings) (canRender : Bool) (digest : Digest) (draws : Draws) :
    Orderly replies draws ((blank settings canRender digest).addEvaluator none) := by
  have ledger := (@Ledger.addEvaluator (inTurn replies) _ draws
    (blank_ledger replies settings canRender digest draws) none).1
  have passes : ((blank settings canRender digest).addEvaluator none).passes = [] := rfl
  have computations : ((blank settings canRender digest).addEvaluator none).computations = [] := rfl
  have noPass : ∀ (k : Nat) (p : Pass),
      ((blank settings canRender digest).addEvaluator none).passes[k]? ≠ some p := by simp [passes]
  have noComputation : ∀ (i : Nat) (c : Computation),
      ((blank settings canRender digest).addEvaluator none).computations[i]? ≠ some c := by simp [computations]
  refine ⟨ledger, rfl, fun node mem => ?_, fun i c hc => absurd hc (noComputation i c),
    fun k p hp => absurd hp (noPass k p), .resting ⟨fun k p hp => absurd hp (noPass k p),
    fun i c hc => absurd hc (noComputation i c)⟩ fun v _ => ⟨fun i c ran => absurd ran.1 (noComputation i c),
    fun i c ran => absurd ran.1 (noComputation i c), fun i j c d ran => absurd ran.1 (noComputation i c)⟩⟩
  cases mem

end Orderly

/-- Every state that is reached in turn is in order. -/
theorem Reaches.orderly {settings : Settings} {canRender : Bool} {digest : Digest}
    (run : Reaches (inTurn replies) ((blank settings canRender digest).addEvaluator none) e) :
    ∃ draws, Orderly replies draws e := by
  induction run with
  | refl => exact ⟨fun _ => default, .first replies settings canRender digest _⟩
  | tail _ change ih =>
    obtain ⟨draws, orderly⟩ := ih
    exact orderly.change change

end Engine

end VectorGraph
