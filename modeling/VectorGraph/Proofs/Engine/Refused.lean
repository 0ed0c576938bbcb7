import VectorGraph.Proofs.Engine.Modes
import VectorGraph.Proofs.Engine.Replaced
import VectorGraph.Proofs.Operator.Refused

/-!
What an evaluation fails with.

The engine itself fails for the graph only. Any other failure is that of an operator upstream of the target
(`Solo.raised_upstream`), and the steady operators fail for refused parameters only, so that the target of a pass among
them comes to a fragment, to a fault of the graph, or to the refusal of an integer that no double can hold
(`fails_for_refused`). Such an integer does end an evaluation (`oversized_parameter_raises`).
-/
namespace VectorGraph

deriving instance DecidableEq for GraphFault, Failure, Product

namespace Engine

variable {e : Engine} {replies : Replies} {draws : Draws} {k base : Nat} {stock : List (CacheKey × Fragment)}
  {p : Pass} {u v : Label} {failure : Failure}

/-- The inputs of a node are complete in a pass, and its operator makes them fail. -/
def RaisedAt (e : Engine) (replies : Replies) (p : Pass) (v : Label) (failure : Failure) : Prop :=
  ∃ n got ids, e.graph.node? v = some n ∧ p.Gathers e.settings.concurrentSiblings (e.sortedInputs v) (.ok got) ∧
    n.kind.requiredSockets.find? (fun s => !got.any (·.1 == s)) = none ∧
    Work.Yields replies (n.perform e.settings e.canRender p.resolution got ids).1 (.error failure)

/-- The inputs of a node are complete in a pass, and its operator is refused its parameters. -/
def RefusedAt (e : Engine) (p : Pass) (v : Label) : Prop :=
  ∃ n got, e.graph.node? v = some n ∧ p.Gathers e.settings.concurrentSiblings (e.sortedInputs v) (.ok got) ∧
    n.kind.requiredSockets.find? (fun s => !got.any (·.1 == s)) = none ∧ n.kind.refuses n.params got = true

/-- A steady operator fails where it is refused its parameters. -/
theorem RaisedAt.refused (h : e.RaisedAt replies p v failure)
    (steady : ∀ n, e.graph.node? v = some n → n.kind.isSteady = true)
    (small : p.resolution.count.natAbs < 2 ^ 53) (sized : e.settings.previewResolution ≠ 0) :
    failure = .tooLarge ∧ e.RefusedAt p v := by
  obtain ⟨n, got, ids, node, gathers, complete, yields⟩ := h
  obtain ⟨same, refused⟩ := (Node.yields_error_iff small sized complete (steady n node)).mp yields
  exact ⟨same, n, got, node, gathers, complete, refused⟩

namespace Solo

/-- A computation of the pass has come to what its operator can come to at the resolution of the pass. -/
theorem yields_of_own (h : Solo replies draws k base stock p e) (capacity : 0 ≤ e.settings.maxCacheEntries) {i : Nat}
    {c : Computation} {r : Except Failure Fragment} (computation : e.computations[i]? = some c)
    (stage : c.stage = .ended r) (low : base ≤ i) :
    ∃ ids, Work.Yields replies (c.node.perform e.settings e.canRender p.resolution c.inputs ids).1 r := by
  have extent : e.extentOf c = p.resolution := by
    rw [extentOf, (h.underway.own i c computation low).1, h.underway.pass]
    rfl
  cases h.ledger.works i c computation with
  | queued queued => rw [stage] at queued; cases queued
  | painting painting => rw [stage] at painting; cases painting
  | ended ended yields _ accepted =>
    rw [stage] at ended
    obtain rfl := Stage.ended.inj ended
    rw [runOf, extent, ← accepted capacity] at yields
    exact ⟨_, yields⟩

/-- A node fails for the graph, or as the operator of a node upstream does. -/
theorem raised_upstream (h : Solo replies draws k base stock p e) (capacity : 0 ≤ e.settings.maxCacheEntries)
    (done : p.result? v = some (.error failure)) :
    failure.isGraphFault = true ∨ ∃ u, e.graph.Upstream u v ∧ e.RaisedAt replies p u failure := by
  obtain ⟨rank, ranked⟩ := h.exists_rank
  have up := h.underway.within v (by rw [Pass.result?_eq_some.mp done]; exact Option.some_ne_none _)
  refine ranked.induction (M := fun v => ∀ failure, p.result? v = some (.error failure) →
    failure.isGraphFault = true ∨ ∃ u, e.graph.Upstream u v ∧ e.RaisedAt replies p u failure)
    (fun v _ ih failure done => ?_) up failure done
  cases h.underway.sound v _ (Pass.result?_eq_some.mp done) with
  | gathered result gathers =>
    obtain rfl := Except.error.inj result
    obtain ⟨i, hi, failed⟩ := gathers.exists_failed
    refine (ih i.2 (feeds_of_mem hi) _ failed).imp_right fun ⟨u, path, raised⟩ => ?_
    exact ⟨u, path.tail (feeds_of_mem hi), raised⟩
  | missed node gathers missing result =>
    obtain rfl := Except.error.inj result
    exact .inl rfl
  | @computed n got i c node gathers complete computation key store stage own old =>
    -- a stored fragment is no failure, so the computation is one of this pass
    have low : base ≤ i := by
      by_contra before
      obtain ⟨f, same, -⟩ := old (Nat.lt_of_not_le before)
      cases same
    obtain ⟨rfl, rfl⟩ := own low
    obtain ⟨ids, yields⟩ := h.yields_of_own capacity computation stage low
    exact .inr ⟨v, .refl, _, _, ids, node, gathers, complete, yields⟩

/-- Where its cache held nothing at the outset, a node that is refused its parameters fails. -/
theorem result_of_refused (h : Solo replies draws k base [] p e) (capacity : 0 ≤ e.settings.maxCacheEntries)
    (small : p.resolution.count.natAbs < 2 ^ 53) (sized : e.settings.previewResolution ≠ 0)
    (refused : e.RefusedAt p v) {r : Except Failure Fragment} (done : p.result? v = some r) : r = .error .tooLarge := by
  obtain ⟨n, got, node, gathers, complete, refused⟩ := refused
  cases h.underway.sound v _ (Pass.result?_eq_some.mp done) with
  | gathered _ gathers' => cases gathers.unique gathers'
  | missed node' gathers' missing =>
    obtain rfl := Option.some.inj (node.symm.trans node')
    obtain rfl := Except.ok.inj (gathers.unique gathers')
    rw [complete] at missing
    cases missing
  | @computed n' got' i c node' gathers' _ computation key store stage own old =>
    obtain rfl := Option.some.inj (node.symm.trans node')
    obtain rfl := Except.ok.inj (gathers.unique gathers')
    obtain ⟨ids, yields⟩ := h.yields_of_own capacity computation stage (base_le_of_nothing_stored old)
    obtain ⟨rfl, rfl⟩ := own (base_le_of_nothing_stored old)
    rw [Node.perform_refused small sized complete refused] at yields
    exact yields

end Solo

/-- What an evaluation fails with. A pass is started where nothing else goes on, at a side below `2 ^ 53`, and whatever
its cache holds. Whatever order its steps are made in, there are only so many of them, and one is possible until the
pass is closed. A pass that has failed, and not for the graph, has failed as the operator of a node does that the
target depends on; and if all of these are steady, then for an integer that no double can hold and that stands among
the parameters of one of them. -/
theorem fails_for_refused {u : Usage} {settings : Settings} {canRender : Bool} {digest : Digest} {n : Nat}
    {target : Label} {resolution : Json} {r : Extent} (salt : String)
    (run : Reaches u (blank settings canRender digest) e) (rest : ∀ event, e.step event = none)
    (there : n < e.evaluators.length) (capacity : 0 ≤ settings.maxCacheEntries)
    (sized : settings.previewResolution ≠ 0) (total : AlwaysReplies u.replies)
    (positive : resolutionOf resolution = .ok r) (small : r.count.natAbs < 2 ^ 53)
    (acyclic : e.graph.checkAcyclic target = .ok ()) :
    ∃ turn, e.start n target resolution salt = .ok turn ∧
      ∃ bound, ∀ m e', Steps u.replies m turn.engine e' → m ≤ bound ∧ e'.graph = e.graph ∧
        ∃ p, e'.passes[e.passes.length]? = some p ∧ p.target = target ∧ p.resolution = r ∧
          (p.result = none → ∃ event turn', e'.step event = some turn' ∧ event.Allowed u.replies e') ∧
          ∀ failure, p.result = some (.error failure) → failure.isGraphFault = false →
            (∃ v, e.graph.Upstream v target ∧ e'.RaisedAt u.replies p v failure) ∧
            ((∀ v n, e.graph.Upstream v target → e.graph.node? v = some n → n.kind.isSteady = true) →
              failure = .tooLarge ∧ ∃ v, e.graph.Upstream v target ∧ e'.RefusedAt p v) := by
  obtain ⟨draws, ledger, old⟩ := run.ledger (blank_ledger u.replies settings canRender digest fun _ => default)
  obtain ⟨turn, p₀, started, s, resolved, opened, solo₀⟩ :=
    (ledger.calm_of_rest total rest).starts salt ledger there positive acyclic
  obtain ⟨log, state⟩ := s.state
  refine ⟨turn, started, remaining turn.engine p₀, fun m e' steps => ?_⟩
  obtain ⟨draws', p, solo, -, less, grows, graph⟩ :=
    solo₀.along (P := fun _ _ _ => True) trivial (fun _ _ _ there => there) steps
  have later := solo₀.later grows solo.underway
  have same : e'.graph = e.graph := by rw [graph, state]
  have kept : e'.settings = settings := (opened.trans grows).settings.trans old.settings
  have aim : p.target = target := later.target.trans s.target
  have extent : p.resolution = r := later.resolution.trans resolved
  refine ⟨by omega, same, p, solo.underway.pass, aim, extent, solo.exists_step total, fun failure result other => ?_⟩
  -- A failure that is no fault of the graph was raised by some run upstream.
  obtain ⟨v, up, raised⟩ :=
    (solo.raised_upstream (kept ▸ capacity) (solo.told _ result).1).resolve_left (by simp [other])
  rw [aim, same] at up
  refine ⟨⟨v, up, raised⟩, fun steady => ?_⟩
  obtain ⟨large, refused⟩ :=
    raised.refused (fun n node => steady v n up (same ▸ node)) (extent ▸ small) (kept ▸ sized)
  exact ⟨large, v, up, refused⟩

end Engine

namespace Studio

open Engine

/-- A studio with a colour whose red is an integer that no double can hold. -/
def oversized : Studio where
  engine := { (blank {} false fullDigest).addEvaluator none with
    graph := { nodes := [⟨.text "n", .color, [("r", .whole (10 ^ 400))]⟩] } }

/-- The parameter ends the evaluation with a failure that is no fault of the graph. -/
theorem oversized_parameter_raises :
    oversized.engine.graph.checkAcyclic (.text "n") = .ok () ∧ (orderNode oversized).1 = [.error .tooLarge] ∧
      Failure.isGraphFault .tooLarge = false := by
  refine ⟨by with_unfolding_all rfl, by decide +kernel, rfl⟩

end Studio

end VectorGraph
