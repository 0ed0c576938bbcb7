import VectorGraph.Proofs.Engine.Resumed
import VectorGraph.Proofs.Graph.Dependents

/-!
What a pass computes again after parameters have been set.

A pass that comes to a fragment and drops nothing leaves a cache that recalls all that its target depends on. Setting
parameters of some nodes concerns these and what depends on them; the cache still recalls everything else
(`Recalls.edited`), so that a further pass for the target computes nothing but what is concerned, and what is not comes to
the same fragments (`edit_recomputes`). A node with parameters that it never had before is computed.
-/
namespace VectorGraph.Engine

variable {e e₁ e₂ : Engine} {replies : Replies} {draws : Draws} {m m' n : Nat} {p q : Pass} {F : Label → Fragment}
  {target : Label} {resolution : Extent} {salt salt' : String} {f f' : Fragment}

/-! ## What is still recalled -/

/-- Where parameters are set, what is not concerned is still recalled. -/
theorem Recalls.edited {entries : List (CacheKey × Fragment)} {edits : List (Label × Fields)} {g : Graph}
    (h : e.Recalls resolution target entries (fun _ => True) F) (edited : e.graph.updateAll edits = some g) :
    Recalls { e with graph := g } resolution target entries (fun v => ¬ g.Touches (edits.map (·.1)) v) F := by
  obtain ⟨edges, nodes⟩ := Graph.updateAll_frame edited
  have upstream : g.Upstream = e.graph.Upstream := congrArg Relation.ReflTransGen (Graph.feeds_of_edges edges)
  have inputs : ∀ v, inputsBy { e with graph := g } F v = e.inputsBy F v := fun v => by
    rw [inputsBy, inputsBy, sortedInputs, sortedInputs, Graph.inputsOf, Graph.inputsOf, edges]
  refine ⟨fun u v step free touched => free (touched.onward step), fun v free up => ?_⟩
  obtain ⟨node, known, complete, there⟩ := h.entry v trivial (upstream ▸ up)
  have unnamed : v ∉ edits.map (·.1) := fun named => free ⟨v, named, .inl rfl⟩
  refine ⟨node, (nodes v unnamed).trans known, by rw [inputs]; exact complete, ?_⟩
  rw [inputs]
  exact there

/-- What is stored for a node has been computed for it, and for this cache, with parameters of the same digest. -/
theorem Ledger.exists_of_stored (h : Ledger replies draws e) (there : n < e.evaluators.length) {node : Node}
    {inputs : Inputs} (stored : (e.keyFor resolution node inputs, f) ∈ (e.cacheOf n).entries) :
    ∃ c ∈ e.computations, c.store = e.storeOf n ∧ c.node.id = node.id ∧
      e.digest c.node.canonicalParams.toUTF8 = e.digest node.canonicalParams.toUTF8 := by
  obtain ⟨i, c, hc, store, -, key⟩ := h.books.entries _ _ (h.cacheOf there) _ _ stored
  have same := CacheKey.mk.inj key
  exact ⟨c, List.mem_of_getElem? hc, store, same.1, same.2.2.1⟩

/-! ## A further pass -/

/-- A pass comes to a fragment, parameters of some nodes are set, and a second pass for the same target at the same
resolution comes to a fragment too. If nothing else goes on in the meantime and nothing is dropped from the cache, the
second pass computes nothing but nodes that are concerned by the edit: nodes that were set, or that depend on such a
one. Of those that were set it computes each that has an encoding of its parameters with which nothing was computed for
it before, provided that the digest tells the encoding from earlier ones. All other nodes come to the fragments of the
first pass, and if no parameters were set nothing is computed, and the fragment is the same. -/
theorem edit_recomputes {u : Usage} {settings : Settings} {canRender : Bool} {digest : Digest} {resolution : Json}
    {turn turn' : Turn} {edits : List (Label × Fields)} {g : Graph}
    (run : Reaches u (blank settings canRender digest) e) (rest : ∀ event, e.step event = none)
    (there : n < e.evaluators.length) (total : AlwaysReplies u.replies)
    (started : e.start n target resolution salt = .ok turn) (first : Retaining u.replies n m turn.engine e₁)
    (pass : e₁.passes[e.passes.length]? = some p) (result : p.result = some (.ok f))
    (edited : e₁.graph.updateAll edits = some g)
    (started' : start { e₁ with graph := g } n target resolution salt' = .ok turn')
    (second : Retaining u.replies n m' turn'.engine e₂) (pass' : e₂.passes[e₁.passes.length]? = some q)
    (result' : q.result = some (.ok f')) :
    (∀ v ∈ q.computed, g.Touches (edits.map (·.1)) v) ∧
    (∀ v ∈ edits.map (·.1), v = target ∨ v ∈ g.ancestors target → ∀ node, g.node? v = some node →
      (∀ c ∈ e₁.computations, c.store = e₁.storeOf n → c.node.id = v →
        c.node.canonicalParams ≠ node.canonicalParams ∧
        (digest c.node.canonicalParams.toUTF8 = digest node.canonicalParams.toUTF8 →
          c.node.canonicalParams = node.canonicalParams)) → v ∈ q.computed) ∧
    (∀ v ∈ q.visited, ¬ g.Touches (edits.map (·.1)) v →
      ∃ h, p.result? v = some (.ok h) ∧ q.result? v = some (.ok h)) ∧
    (edits = [] → q.computed = [] ∧ f' = f) := by
  obtain ⟨r, positive, memory, told, -, results, last⟩ :=
    run.remembers rest there total started first pass result
  -- setting parameters leaves the engine at rest, and most of the cache recalled
  obtain ⟨q₀, rfl, s⟩ := started_at started' positive
  have again :=
    s.resumes (memory.rest.edit g) memory.there (memory.recalls.edited edited) second pass' result'
  have upstream : g.Upstream = e₁.graph.Upstream :=
    congrArg Relation.ReflTransGen (Graph.feeds_of_edges (Graph.updateAll_frame edited).1)
  refine ⟨fun v hv => not_not.mp (again.others v hv).1, fun v named up node known new => ?_,
    fun v visited free => ?_, ?_⟩
  · by_contra uncomputed
    obtain ⟨node', inputs, h, known', stored⟩ := again.stored v (Graph.upstream_iff.mpr up) uncomputed
    obtain rfl := Option.some.inj (known.symm.trans known')
    obtain ⟨draws, ledger⟩ := memory.rest.ledger
    obtain ⟨c, hc, store, name, same⟩ := ledger.exists_of_stored memory.there stored
    obtain ⟨other, tells⟩ := new c hc store (name.trans (Graph.node?_id known))
    rw [told] at same
    exact other (tells same)
  · have up := (again.visited v).mp visited
    exact ⟨_, results v (upstream ▸ up), again.same v up free⟩
  · rintro rfl
    have free : ∀ v, ¬ g.Touches [] v := by
      rintro v ⟨s, none_, -⟩
      cases none_
    refine ⟨List.eq_nil_iff_forall_not_mem.mpr fun v hv => (again.others v hv).1 (free v), ?_⟩
    have same := again.same target .refl (free target)
    rw [again.last, last] at same
    exact Except.ok.inj (Option.some.inj same)

/-- The graph in which the colour is moved further. -/
def movedGraph : Graph :=
  { nodes := [⟨.text "o", .output, []⟩, ⟨.text "t", .translate, [("x", .whole 2)]⟩, ⟨.text "c", .color, []⟩]
    edges := [⟨.text "c", .text "out", .text "t", .text "in"⟩, ⟨.text "t", .text "out", .text "o", .text "in"⟩] }

/-- The engine when a second pass is closed, after that. -/
def movedFurther : Engine :=
  movedAgain.foldl after ({ movedEnd with graph := movedGraph }.opened (.text "o") (.whole 8) "s")

/-- If the colour is moved further, the second pass computes the node that moves it and the output, and takes the
colour from the first pass. -/
theorem edit_recomputes_moved : ∃ p q : Pass, movedEnd.passes[0]? = some p ∧ movedFurther.passes[1]? = some q ∧
    (∀ v ∈ q.computed, movedGraph.Touches [.text "t"] v) ∧ Json.text "t" ∈ q.computed ∧
    ∃ h, p.result? (.text "c") = some (.ok h) ∧ q.result? (.text "c") = some (.ok h) := by
  obtain ⟨turn, p, f, started, first, pass, result, rest, graph⟩ := moved_first
  have edited : movedEnd.graph.updateAll [(.text "t", [("x", .whole 2)])] = some movedGraph := by
    rw [graph]
    rfl
  obtain ⟨turn', started', second⟩ := (rest.edit movedGraph).follow (fun _ _ => trivial) (by decide +kernel)
    (.text "o") "s" (show resolutionOf (.whole 8) = .ok (.pixels 8) from rfl) (by with_unfolding_all rfl)
    (by decide +kernel) movedAgain (by decide +kernel)
  change Retaining _ _ _ _ movedFurther at second
  obtain ⟨q, f', pass', result'⟩ := exists_of_yield? (e := movedFurther) (k := 1) (by decide +kernel)
  have one : movedEnd.passes.length = 1 := by decide +kernel
  obtain ⟨only, new, same, -⟩ := edit_recomputes moved_reached moved_still (by decide) anything_replies started
    first pass result edited started' second (one.symm ▸ pass') result'
  have visited : (movedFurther.passes[1]?).map (·.visited) = some [.text "o", .text "t", .text "c"] := by
    decide +kernel
  rw [pass', Option.map_some, Option.some.injEq] at visited
  refine ⟨p, q, pass, pass', only, new _ (by decide) (by decide +kernel) _ rfl fun c hc _ name => ?_,
    same _ (by rw [visited]; decide) (Graph.touches_singleton.not.mpr (by decide +kernel))⟩
  -- before, the node had no parameters
  have bare : (movedEnd.computations.all fun c => c.node.id != .text "t" || c.node.canonicalParams == "{}") = true := by
    decide +kernel
  have old : c.node.canonicalParams = "{}" := by simpa [name] using List.all_eq_true.mp bare c hc
  rw [old]
  exact ⟨by decide +kernel, fun same => absurd same (by decide +kernel)⟩

end VectorGraph.Engine
