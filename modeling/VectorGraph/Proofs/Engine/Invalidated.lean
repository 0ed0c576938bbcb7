import Mathlib.Data.List.Dedup
import VectorGraph.Proofs.Engine.Resumed
import VectorGraph.Proofs.Graph.Dependents

/-!
What a pass computes again after a node has been invalidated.

To invalidate a node takes away the entries of the node and of all that depends on it. If the cache recalled all that a
target depends on, it still recalls what is left (`Recalls.invalidated`), and there is room again for an entry of
every node that lost its own (`Recalls.spare`). So a further pass for the target computes those that lost theirs, each
of them once, and no others (`invalidation_exact`).
-/
namespace VectorGraph.Engine

variable {e : Engine} {n : Nat} {F : Label → Fragment} {target v : Label} {resolution : Extent}

/-! ## What is left in the cache -/

/-- The entries that an invalidation leaves. -/
theorem entries_invalidate (there : e.storeOf n < e.caches.length) (v : Label) :
    ((e.invalidate n v).2.cacheOf n).entries =
      (e.cacheOf n).entries.filter fun x => !(v :: e.graph.descendants v).contains x.1.node := by
  have cache : (e.invalidate n v).2.cacheOf n = ((e.cacheOf n).invalidate e.graph v).2 :=
    (cacheOf_setCache there _).trans (if_pos rfl)
  rw [cache, Cache.invalidate_snd]

theorem contains_iff_touches {g : Graph} {w : Label} :
    (v :: g.descendants v).contains w = true ↔ g.Touches [v] w := by
  rw [List.contains_iff_mem, List.mem_cons, Graph.touches_singleton]

/-- What does not depend on the node is still recalled. -/
theorem Recalls.invalidated (h : e.Recalls resolution target (e.cacheOf n).entries (fun _ => True) F)
    (there : e.storeOf n < e.caches.length) (v : Label) :
    (e.invalidate n v).2.Recalls resolution target ((e.invalidate n v).2.cacheOf n).entries
      (fun w => ¬ e.graph.Touches [v] w) F := by
  refine ⟨fun u w step free touched => free (touched.onward step), fun w free up => ?_⟩
  obtain ⟨node, known, complete, stored⟩ := h.entry w trivial up
  refine ⟨node, known, complete, ?_⟩
  rw [entries_invalidate there, List.mem_filter, Bool.not_eq_true', ← Bool.not_eq_true, contains_iff_touches]
  refine ⟨stored, ?_⟩
  change ¬ e.graph.Touches [v] node.id
  rwa [Graph.node?_id known]

/-- Those nodes that lose their entries are no more than the entries that go. -/
theorem Recalls.spare {entries : List (CacheKey × Fragment)}
    (h : e.Recalls resolution target entries (fun _ => True) F) (v : Label) :
    ∃ lost : List Label, (∀ w, e.graph.Upstream w target → e.graph.Touches [v] w → w ∈ lost) ∧
      (entries.filter fun x => !(v :: e.graph.descendants v).contains x.1.node).length + lost.length ≤
        entries.length := by
  let gone (w : Label) : Bool := (v :: e.graph.descendants v).contains w
  refine ⟨((target :: e.graph.ancestors target).filter gone).dedup, fun w up touched => ?_, ?_⟩
  · rw [List.mem_dedup, List.mem_filter, List.mem_cons]
    exact ⟨Graph.upstream_iff.mp up, contains_iff_touches.mpr touched⟩
  · have each : ((target :: e.graph.ancestors target).filter gone).dedup ⊆
        (entries.filter fun x => gone x.1.node).map (·.1.node) := by
      intro w hw
      obtain ⟨up, lost⟩ := List.mem_filter.mp (List.mem_dedup.mp hw)
      obtain ⟨node, known, -, stored⟩ := h.entry w trivial (Graph.upstream_iff.mpr (List.mem_cons.mp up))
      have name : (e.keyFor resolution node (e.inputsBy F w)).node = w := Graph.node?_id known
      exact List.mem_map.mpr ⟨_, List.mem_filter.mpr ⟨stored, name.symm ▸ lost⟩, name⟩
    have fewer := ((List.nodup_dedup _).subperm each).length_le
    rw [List.length_map] at fewer
    calc (entries.filter fun x => !gone x.1.node).length + _
      _ ≤ (entries.filter fun x => !gone x.1.node).length + (entries.filter fun x => gone x.1.node).length :=
        Nat.add_le_add_left fewer _
      _ = entries.length := by rw [Nat.add_comm, ← List.length_eq_length_filter_add]

/-! ## A further pass -/

/-- Invalidating a node takes away the entries of the node and of its descendants, which are the nodes that edges lead
to from it, and no others. The others stay in their order, nothing else of the cache changes, and the number told is
that of the entries taken away. This is so for all graphs and caches.

A pass comes to a fragment and drops nothing from its cache, a node is invalidated, and a second pass for the same
target at the same resolution comes to a fragment too. If nothing else goes on in the meantime, the second pass computes
the node and its descendants as far as the target is one of them or depends on them, each of them once, and no other
node. -/
theorem invalidation_exact :
    (∀ (c : Cache) (g : Graph) (v : Label),
      (c.invalidate g v).2 = { c with
        entries := c.entries.filter fun x => !(v :: g.descendants v).contains x.1.node } ∧
      (c.invalidate g v).1 = (c.entries.filter fun x => (v :: g.descendants v).contains x.1.node).length ∧
      ∀ w, w ∈ g.descendants v ↔ Relation.TransGen g.Drives v w) ∧
    ∀ {u : Usage} {settings : Settings} {canRender : Bool} {digest : Digest} {e e₁ e₂ : Engine} {n m m' : Nat}
      {target v : Label} {resolution : Json} {salt salt' : String} {turn turn' : Turn} {p q : Pass} {f f' : Fragment},
      Reaches u (blank settings canRender digest) e → (∀ event, e.step event = none) → n < e.evaluators.length →
      AlwaysReplies u.replies → e.start n target resolution salt = .ok turn →
      Retaining u.replies n m turn.engine e₁ → e₁.passes[e.passes.length]? = some p → p.result = some (.ok f) →
      (e₁.invalidate n v).2.start n target resolution salt' = .ok turn' →
      Steps u.replies m' turn'.engine e₂ → e₂.passes[e₁.passes.length]? = some q → q.result = some (.ok f') →
      q.computed.Nodup ∧ ∀ w, w ∈ q.computed ↔
        (w = target ∨ w ∈ e₁.graph.ancestors target) ∧ (w = v ∨ w ∈ e₁.graph.descendants v) := by
  refine ⟨fun c g v => ⟨c.invalidate_snd g v, c.invalidate_fst g v, fun w => Graph.mem_descendants⟩, ?_⟩
  intro u settings canRender digest e e₁ e₂ n m m' target v resolution salt salt' turn turn' p q f f' run rest there
    total started first pass result started' second pass' result'
  obtain ⟨r, positive, memory, -⟩ := run.remembers rest there total started first pass result
  have there₁ := memory.there
  have rest₁ := memory.rest.invalidate there₁ v
  obtain ⟨draws, ledger⟩ := memory.rest.ledger
  have store := (List.getElem?_eq_some_iff.mp (ledger.cacheOf there₁)).1
  have left := entries_invalidate store v
  obtain ⟨q₀, rfl, s⟩ := started_at started' positive
  have recalls := memory.recalls.invalidated store v
  -- as many entries have gone as have to be computed again
  obtain ⟨lost, all, spare⟩ := memory.recalls.spare v
  have fits := (memory.rest.cacheOf there₁).2
  have kept : Retaining u.replies n m' turn'.engine e₂ := by
    refine s.retaining_of_spare rest₁ there₁ recalls lost (fun w up touched => all w up (not_not.mp touched)) ?_ second
    rw [left, ← List.length_eq_zero_iff]
    change _ ∨ _ ≤ e₁.settings.maxCacheEntries
    omega
  have again := s.resumes rest₁ there₁ recalls kept pass' result'
  refine ⟨again.once, fun w => ⟨fun computed => ?_, fun ⟨up, lost⟩ => ?_⟩⟩
  · obtain ⟨touched, up⟩ := again.others w computed
    exact ⟨Graph.upstream_iff.mp up, Graph.touches_singleton.mp (not_not.mp touched)⟩
  · -- nothing is stored for a node that has been invalidated
    by_contra uncomputed
    obtain ⟨node, inputs, g, known, stored⟩ := again.stored w (Graph.upstream_iff.mpr up) uncomputed
    rw [left, List.mem_filter, Bool.not_eq_true', ← Bool.not_eq_true, contains_iff_touches] at stored
    refine stored.2 (Graph.touches_singleton.mpr ?_)
    rwa [show ((e₁.invalidate n v).2.keyFor q₀.resolution node inputs).node = w from Graph.node?_id known]

/-- The engine when a second pass is closed, after the node that moves the colour has been invalidated. -/
def movedRenewed : Engine :=
  movedAgain.foldl after ((movedEnd.invalidate 0 (.text "t")).2.opened (.text "o") (.whole 8) "s")

/-- If the node that moves the colour is invalidated two entries go, and the second pass computes that node and the
output, but not the colour. -/
theorem invalidation_exact_moved : (movedEnd.invalidate 0 (.text "t")).1 = 2 ∧
    ∃ q : Pass, movedRenewed.passes[1]? = some q ∧ q.computed.Nodup ∧
      Json.text "t" ∈ q.computed ∧ Json.text "o" ∈ q.computed ∧ Json.text "c" ∉ q.computed := by
  obtain ⟨turn, p, f, started, first, pass, result, rest, graph⟩ := moved_first
  have there : 0 < movedEnd.evaluators.length := by decide +kernel
  have acyclic : movedEnd.graph.checkAcyclic (.text "o") = .ok () := by
    rw [graph]
    with_unfolding_all rfl
  obtain ⟨turn', started', second⟩ := (rest.invalidate there (.text "t")).follow (fun _ _ => trivial)
    (by decide +kernel) (.text "o") "s" (show resolutionOf (.whole 8) = .ok (.pixels 8) from rfl) acyclic
    (by decide +kernel) movedAgain (by decide +kernel)
  change Retaining _ _ _ _ movedRenewed at second
  obtain ⟨q, f', pass', result'⟩ := exists_of_yield? (e := movedRenewed) (k := 1) (by decide +kernel)
  have one : movedEnd.passes.length = 1 := by decide +kernel
  obtain ⟨once, exact_⟩ := invalidation_exact.2 moved_reached moved_still (by decide) anything_replies started
    first pass result started' second.steps (one.symm ▸ pass') result'
  refine ⟨by decide +kernel, q, pass', once, ?_, ?_, ?_⟩
  · exact (exact_ _).mpr (by decide +kernel)
  · exact (exact_ _).mpr (by decide +kernel)
  · exact (exact_ _).not.mpr (by decide +kernel)

end VectorGraph.Engine
