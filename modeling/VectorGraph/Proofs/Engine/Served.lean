import VectorGraph.Proofs.Engine.Kept

/-!
What a pass finds in its cache.

A cache recalls a set of nodes that holds the sources of each of its nodes, if it has an entry for each of them under
the key that the fragments of its sources make (`Engine.Recalls`). A pass that runs alone takes such nodes from the
cache: none of their operators runs (`Engine.Served`), and each comes to what is stored (`Solo.recalled`). After a pass
in which nothing was dropped the cache recalls everything that the target depends on, so that a further pass for the
target runs no operator and comes to the same fragment (`shared_cache_serves`).
-/
namespace VectorGraph.Engine

variable {e e' : Engine} {replies : Replies} {draws draws' : Draws} {k base : Nat}
  {stock : List (CacheKey × Fragment)} {p p' : Pass} {U : Label → Prop} {F : Label → Fragment}

/-! ## Nodes that are taken from the cache -/

/-- Among the entries is what `F` says of each node of `U` that the target depends on, under the key that it has if
its sources have yielded what `F` says of them. -/
structure Recalls (e : Engine) (resolution : Extent) (target : Label) (entries : List (CacheKey × Fragment))
    (U : Label → Prop) (F : Label → Fragment) : Prop where
  sources : ∀ u v, e.graph.Feeds u v → U v → U u
  entry : ∀ v, U v → e.graph.Upstream v target → ∃ n, e.graph.node? v = some n ∧
    n.kind.requiredSockets.find? (fun s => !(e.inputsBy F v).any (·.1 == s)) = none ∧
    (e.keyFor resolution n (e.inputsBy F v), F v) ∈ entries

theorem Recalls.congr {resolution : Extent} {target : Label} {entries : List (CacheKey × Fragment)}
    (h : e.Recalls resolution target entries U F) (graph : e'.graph = e.graph) (digest : e'.digest = e.digest) :
    e'.Recalls resolution target entries U F := by
  have inputs : ∀ v, e'.inputsBy F v = e.inputsBy F v := fun v => by
    rw [inputsBy, inputsBy, sortedInputs_congr graph]
  refine ⟨graph ▸ h.sources, fun v hv up => ?_⟩
  obtain ⟨n, node, complete, there⟩ := h.entry v hv (graph ▸ up)
  refine ⟨n, graph ▸ node, by rw [inputs]; exact complete, ?_⟩
  rw [inputs, keyFor, digest]
  exact there

/-- The pass has started no computation for a node of `U`, and run none of their operators. -/
structure Served (e : Engine) (base : Nat) (p : Pass) (U : Label → Prop) : Prop where
  idle : ∀ (i : Nat) (c : Computation), base ≤ i → e.computations[i]? = some c → ¬ U c.node.id
  computed : ∀ v ∈ p.computed, ¬ U v

/-- A pass that has just been started has computed nothing. -/
theorem Started.served {n : Nat} {target : Label} {salt : String} (s : Started e n target salt p e') :
    e'.Served e.computations.length p U := by
  obtain ⟨log, rfl⟩ := s.state
  constructor
  · intro i c low hc
    exact absurd (List.getElem?_eq_some_iff.mp hc).1 (Nat.not_lt.mpr low)
  · intro v hv
    rw [s.computed] at hv
    cases hv

theorem inputsBy_recalled {v : Label} {sideBySide : Bool} {got : Inputs}
    (gathers : p.Gathers sideBySide (e.sortedInputs v) (.ok got))
    (source : ∀ i ∈ e.sortedInputs v, ∀ s, p.result? i.2 = some s → s = .ok (F i.2)) : e.inputsBy F v = got :=
  inputsBy_eq gathers fun i hi _ hf => (Except.ok.inj (source i hi _ hf)).symm

namespace Solo

/-- What a node of `U` comes to is what is recalled of it, unless a computation for one has ended. -/
theorem recalled (h : Solo replies draws k base stock p e) (distinct : (stock.map (·.1)).Nodup)
    (recalls : e.Recalls p.resolution p.target stock U F)
    (none_ : ∀ (i : Nat) (c : Computation) (r : Except Failure Fragment), base ≤ i → e.computations[i]? = some c →
      c.stage = .ended r → ¬ U c.node.id)
    {v : Label} {r : Except Failure Fragment} (hv : U v) (done : p.result? v = some r) : r = .ok (F v) := by
  obtain ⟨rank, ranked⟩ := h.exists_rank
  have up : e.graph.Upstream v p.target :=
    h.underway.within v (by rw [Pass.result?_eq_some.mp done]; exact Option.some_ne_none _)
  refine ranked.induction (M := fun v => U v → ∀ r, p.result? v = some r → r = .ok (F v)) (fun v up ih hv r done => ?_)
    up hv r done
  have source : ∀ i ∈ e.sortedInputs v, ∀ s, p.result? i.2 = some s → s = .ok (F i.2) := fun i hi =>
    ih i.2 (feeds_of_mem hi) (recalls.sources _ _ (feeds_of_mem hi) hv)
  obtain ⟨n, node, complete, entry⟩ := recalls.entry v hv up
  cases h.underway.sound v _ (Pass.result?_eq_some.mp done) with
  | gathered result gathers =>
    obtain ⟨i, hi, failed⟩ := gathers.exists_failed
    cases source i hi _ failed
  | missed node' gathers missing result =>
    obtain rfl := Option.some.inj (node.symm.trans node')
    rw [inputsBy_recalled gathers source, missing] at complete
    cases complete
  | @computed n' got i c node' gathers complete' computation key store stage own old =>
    obtain rfl := Option.some.inj (node.symm.trans node')
    have low : i < base := by
      by_contra hlt
      obtain ⟨rfl, -⟩ := own (Nat.le_of_not_lt hlt)
      exact none_ i c r (Nat.le_of_not_lt hlt) computation stage ((Graph.node?_id node).symm ▸ hv)
    obtain ⟨f, rfl, there⟩ := old low
    rw [inputsBy_recalled gathers source] at entry
    -- no key is stored twice
    have same := List.inj_on_of_nodup_map distinct there entry rfl
    rw [(Prod.mk.inj same).2]

end Solo

namespace SoloMove

variable (h : SoloMove replies k base stock draws p e draws' p' e')

include h

theorem recalls (recalls : e.Recalls p.resolution p.target stock U F) :
    e'.Recalls p'.resolution p'.target stock U F := by
  rw [h.later.resolution, h.later.target]
  exact recalls.congr h.graph h.grows.digest

/-- A computation of the pass that was there before is not for a node of `U`. -/
theorem idle_of_old (served : e.Served base p U) {i : Nat} {c d : Computation} (low : base ≤ i)
    (hc : e.computations[i]? = some c) (hd : e'.computations[i]? = some d) : ¬ U d.node.id := by
  obtain ⟨d', hd', hcd⟩ := h.grows.computations i c hc
  rw [Option.some.inj (hd.symm.trans hd'), hcd.node]
  exact served.idle i c low hc

/-- A node that is recalled is not computed, since there is an entry for it when its inputs have been gathered. -/
theorem idle_of_new (distinct : (stock.map (·.1)).Nodup) (kept : e.Kept base stock p)
    (recalls : e.Recalls p.resolution p.target stock U F) (served : e.Served base p U) {i : Nat} {d : Computation}
    (low : base ≤ i) (old : e.computations[i]? = none) (new : e'.computations[i]? = some d) : ¬ U d.node.id := by
  intro hu
  have recalls' := h.recalls recalls
  have step := h.move.cacheStep h.before.ledger
  obtain ⟨queued, q, hq, missing⟩ := step.of_new old new
  obtain ⟨mine, -⟩ := h.after.underway.own i d new low
  obtain rfl := Option.some.inj ((mine ▸ hq).symm.trans h.before.underway.pass)
  have waiting := h.after.waiting_of_queued new queued
  obtain ⟨-, n, d', node, hd', rfl, -, gathers⟩ := h.after.underway.sound _ _ waiting
  obtain rfl := Option.some.inj (new.symm.trans hd')
  have up := h.after.underway.within _ (by rw [waiting]; exact Option.some_ne_none _)
  obtain ⟨n, node', -, entry⟩ := recalls'.entry _ hu up
  obtain rfl := Option.some.inj (node.symm.trans node')
  -- none has ended for a node of `U`, so that the inputs are what is recalled
  have none_ : ∀ (i : Nat) (d : Computation) (r : Except Failure Fragment), base ≤ i →
      e'.computations[i]? = some d → d.stage = .ended r → ¬ U d.node.id := by
    intro i d r low hd stage
    cases hc : e.computations[i]? with
    | some c => exact h.idle_of_old served low hc hd
    | none =>
      rw [(step.of_new hc hd).1] at stage
      cases stage
  have inputs : e'.inputsBy F d.node.id = d.inputs := inputsBy_recalled gathers fun j hj s hs =>
    h.after.recalled distinct recalls' none_ (recalls'.sources _ _ (feeds_of_mem hj) hu) hs
  have same : e'.keyFor q.resolution d.node d.inputs = e.keyFor q.resolution d.node d.inputs := by
    simp only [keyFor, h.grows.digest]
  have there := kept.old _ entry
  rw [inputs, h.later.resolution, same] at there
  exact Cache.find?_eq_none_iff.mp missing _ there rfl

/-- A move does not compute what is recalled. -/
theorem served (distinct : (stock.map (·.1)).Nodup) (kept : e.Kept base stock p)
    (recalls : e.Recalls p.resolution p.target stock U F) (served : e.Served base p U) : e'.Served base p' U := by
  constructor
  · intro i d low hd
    cases hc : e.computations[i]? with
    | some c => exact h.idle_of_old served low hc hd
    | none => exact h.idle_of_new distinct kept recalls served low hc hd
  · intro v hv
    cases h.runs with
    | none unrun computed ids =>
      rw [computed] at hv
      exact served.computed v hv
    | one low computation =>
      rcases List.mem_append.mp hv with hv | hv
      · exact served.computed v hv
      · rw [List.mem_singleton.mp hv]
        exact served.idle _ _ low computation

end SoloMove

/-- What is kept while a pass takes from the cache what is recalled. -/
structure Serving (e : Engine) (base : Nat) (stock : List (CacheKey × Fragment)) (p : Pass) (U : Label → Prop)
    (F : Label → Fragment) : Prop where
  tidy : e.AllTidy
  kept : e.Kept base stock p
  recalls : e.Recalls p.resolution p.target stock U F
  served : e.Served base p U

/-- A move that drops nothing goes on taking from the cache what is recalled. -/
theorem SoloMove.serving (h : SoloMove replies k base stock draws p e draws' p' e') (distinct : (stock.map (·.1)).Nodup)
    (serving : e.Serving base stock p U F) (kept : e'.Kept base stock p') : e'.Serving base stock p' U F :=
  ⟨(h.move.cacheStep h.before.ledger).tidy serving.tidy, kept, h.recalls serving.recalls,
    h.served distinct serving.kept serving.recalls serving.served⟩

namespace Solo

/-- A pass starts computations only for what is not recalled, so that there is room for what they yield if there is
room for that. -/
theorem room_of_spare (h : Solo replies draws k base stock p e) (serving : e.Serving base stock p U F)
    {others : List Label} (left : ∀ v, e.graph.Upstream v p.target → ¬ U v → v ∈ others)
    (spare : others = [] ∨ (stock.length + others.length : Int) ≤ e.settings.maxCacheEntries)
    (going : ∃ (i : Nat) (c : Computation), e.computations[i]? = some c ∧ c.Open) :
    ((e.cacheOf p.evaluator).entries.length : Int) < (e.cacheOf p.evaluator).capacity := by
  have within : ∀ (i : Nat) (c : Computation), base ≤ i → e.computations[i]? = some c → c.node.id ∈ others :=
    fun i c low hc => left _ (h.upstream_of_own low hc) (serving.served.idle i c low hc)
  rcases spare with none_ | enough
  · obtain ⟨i, c, hc, isOpen⟩ := going
    have there := within i c (h.of_open hc isOpen).1 hc
    rw [none_] at there
    cases there
  · exact h.room_of_length_le serving.kept (h.length_le_of_mem others within) enough going

/-- A pass takes from the cache what is recalled from the outset on, if nothing is left to compute or there is room
for it. -/
theorem serving_steps {e₀ : Engine} {p₀ : Pass} {draws₀ : Draws} (h : Solo replies draws₀ k base stock p₀ e₀)
    (serving : e₀.Serving base stock p₀ U F) (distinct : (stock.map (·.1)).Nodup) (others : List Label)
    (left : ∀ v, e₀.graph.Upstream v p₀.target → ¬ U v → v ∈ others)
    (spare : others = [] ∨ (stock.length + others.length : Int) ≤ e₀.settings.maxCacheEntries)
    {m : Nat} (run : Steps replies m e₀ e) :
    ∃ draws p, Solo replies draws k base stock p e ∧ e.Serving base stock p U F ∧
      remaining e p + m ≤ remaining e₀ p₀ ∧ Grows e₀ e ∧ e.graph = e₀.graph := by
  apply h.along (P := fun _ p e => e.Serving base stock p U F) serving ?_ run
  intro draws p e draws' p' e' move grows graph serving
  have target := (h.later grows move.before.underway).target
  rw [← graph, ← target] at left
  rw [← grows.settings] at spare
  exact move.serving distinct serving (move.kept serving.tidy serving.kept (move.before.room_of_spare serving left spare))

end Solo

/-! ## After a pass -/

/-- The fragments of all nodes visited are stored, each under the key that the fragments of its sources make. -/
def Filled (e : Engine) (p : Pass) : Prop :=
  ∀ v ∈ p.visited, ∃ n, e.graph.node? v = some n ∧
    (e.keyFor p.resolution n (e.inputsBy (yielded p) v), yielded p v) ∈ (e.cacheOf p.evaluator).entries

namespace Solo

/-- A pass that yields a fragment, and in which nothing was dropped, has filled its cache. -/
theorem filled (h : Solo replies draws k base stock p e) (kept : e.Kept base stock p) {f : Fragment}
    (result : p.result = some (.ok f)) : e.Filled p := by
  intro v hv
  have closed : p.result ≠ none := by
    rw [result]
    exact Option.some_ne_none _
  obtain ⟨r, done⟩ := Option.ne_none_iff_exists'.mp ((h.visited_iff closed).mp hv)
  have up := h.underway.within v (by rw [Pass.result?_eq_some.mp done]; exact Option.some_ne_none _)
  obtain ⟨g, hg⟩ := h.result_of_upstream (h.told _ result).1 up
  obtain ⟨node, known, -, stored⟩ := h.stored kept hg
  exact ⟨node, known, yielded_eq hg ▸ stored⟩

/-- After such a pass the cache recalls everything that the target depends on. -/
theorem recalls (h : Solo replies draws k base stock p e) (kept : e.Kept base stock p) {f : Fragment}
    (done : p.result? p.target = some (.ok f)) :
    e.Recalls p.resolution p.target (e.cacheOf p.evaluator).entries (fun _ => True) (yielded p) := by
  refine ⟨fun _ _ _ _ => trivial, fun v _ up => ?_⟩
  obtain ⟨g, hg⟩ := h.result_of_upstream done up
  obtain ⟨n, node, complete, there⟩ := h.stored kept hg
  exact ⟨n, node, complete, yielded_eq hg ▸ there⟩

/-- A further pass for the target, with a cache that has dropped nothing, runs no operator and comes to the same
fragment, whatever order its steps are made in. -/
theorem serves_again {u : Usage} (h : Solo u.replies draws k base stock p e) (tidy : e.AllTidy)
    (kept : e.Kept base stock p) {f : Fragment} (result : p.result = some (.ok f)) (total : AlwaysReplies u.replies)
    {n : Nat} (there : n < e.evaluators.length) (shared : e.storeOf n = e.storeOf p.evaluator) {resolution : Json}
    (positive : resolutionOf resolution = .ok p.resolution) (salt : String) :
    ∃ turn, e.start n p.target resolution salt = .ok turn ∧
      ∃ bound, ∀ m e', Steps u.replies m turn.engine e' → m ≤ bound ∧
        ∃ q, e'.passes[e.passes.length]? = some q ∧ q.computed = [] ∧
          (q.result = none → ∃ event turn', e'.step event = some turn' ∧ event.Allowed u.replies e') ∧
          (q.result ≠ none → q.result = some (.ok f)) := by
  have closed : p.result ≠ none := by
    rw [result]
    exact Option.some_ne_none _
  have calm := h.calm closed
  obtain ⟨done, -⟩ := h.told _ result
  obtain ⟨turn, q₀, started, s, resolution₀, -, solo₀⟩ := calm.starts salt h.ledger there positive h.acyclic
  have cache : e.cacheOf n = e.cacheOf p.evaluator := by
    rw [Engine.cacheOf, shared]
    rfl
  have distinct : ((e.cacheOf n).entries.map (·.1)).Nodup := (cache ▸ tidy.cacheOf h.store_lt).entries
  obtain ⟨log, state⟩ := s.state
  -- All that the first pass has finished upstream of the target stands in the cache, under the keys asked for now.
  have recalls₀ : turn.engine.Recalls q₀.resolution q₀.target (e.cacheOf n).entries (fun _ => True) (yielded p) := by
    rw [resolution₀, s.target, cache]
    exact (h.recalls kept done).congr (by rw [state]) (by rw [state])
  have serving : turn.engine.Serving e.computations.length (e.cacheOf n).entries q₀ (fun _ => True) (yielded p) :=
    ⟨tidy.congr (by rw [state]), calm.kept s, recalls₀, s.served⟩
  refine ⟨turn, started, remaining turn.engine q₀, fun m e' steps => ?_⟩
  obtain ⟨draws', q, solo, ⟨-, -, recalls', served⟩, less, grows, -⟩ :=
    solo₀.serving_steps serving distinct [] (fun _ _ other => absurd trivial other) (.inl rfl) steps
  have later := solo₀.later grows solo.underway
  refine ⟨by omega, q, solo.underway.pass, ?_, solo.exists_step total, fun closed' => ?_⟩
  · exact List.eq_nil_iff_forall_not_mem.mpr fun v hv => served.computed v hv trivial
  · obtain ⟨r, result'⟩ := Option.ne_none_iff_exists'.mp closed'
    have same := solo.recalled distinct recalls' (fun i c _ low hc _ => served.idle i c low hc) trivial
      (solo.told r result').1
    rw [result', same, later.target, s.target, yielded_eq done]

end Solo

/-- Two evaluators share a cache, with room for the target and all nodes that it depends on. A pass of the first one is
started where nothing else goes on. If it yields a fragment it has filled the cache, and then a pass of the second one
for the same target at the same resolution runs no operator and comes to the same fragment. Whatever order the steps
are made in, there are only so many of them, and one is possible until the pass is closed. -/
theorem shared_cache_serves {u : Usage} {settings : Settings} {canRender : Bool} {digest : Digest} {n n' : Nat}
    {target : Label} {resolution : Json} {r : Extent} (salt salt' : String)
    (run : Reaches u (blank settings canRender digest) e) (rest : ∀ event, e.step event = none)
    (there : n < e.evaluators.length) (there' : n' < e.evaluators.length) (shared : e.storeOf n' = e.storeOf n)
    (room : ((e.cacheOf n).entries.length + (e.graph.ancestors target).length + 1 : Int) ≤ settings.maxCacheEntries)
    (total : AlwaysReplies u.replies) (positive : resolutionOf resolution = .ok r)
    (acyclic : e.graph.checkAcyclic target = .ok ()) :
    ∃ turn, e.start n target resolution salt = .ok turn ∧
      ∃ bound, ∀ m e', Steps u.replies m turn.engine e' → m ≤ bound ∧
        ∃ p, e'.passes[e.passes.length]? = some p ∧ p.evaluator = n ∧ p.target = target ∧ p.resolution = r ∧
          (p.result = none → ∃ event turn', e'.step event = some turn' ∧ event.Allowed u.replies e') ∧
          ∀ f, p.result = some (.ok f) → e'.Filled p ∧
            ∃ turn', e'.start n' target resolution salt' = .ok turn' ∧
              ∃ bound', ∀ m' e'', Steps u.replies m' turn'.engine e'' → m' ≤ bound' ∧
                ∃ q, e''.passes[e'.passes.length]? = some q ∧ q.computed = [] ∧
                  (q.result = none → ∃ event turn'', e''.step event = some turn'' ∧ event.Allowed u.replies e'') ∧
                  (q.result ≠ none → q.result = some (.ok f)) := by
  have nothing := blank_ledger u.replies settings canRender digest fun _ => default
  obtain ⟨draws, ledger, old⟩ := run.ledger nothing
  have tidy : e.AllTidy := run.tidy nothing fun s cache hs => by cases hs
  have calm := ledger.calm_of_rest total rest
  obtain ⟨turn, p₀, started, s, rfl, opened, solo₀⟩ := calm.starts salt ledger there positive acyclic
  obtain ⟨log, state⟩ := s.state
  have enough : ((e.cacheOf n).entries.length + (turn.engine.graph.ancestors p₀.target).length + 1 : Int) ≤
      turn.engine.settings.maxCacheEntries := by
    rw [state, s.target]
    exact old.settings ▸ room
  refine ⟨turn, started, remaining turn.engine p₀, fun m e' steps => ?_⟩
  obtain ⟨draws', p, solo, ⟨tidy', kept⟩, less, grows, graph⟩ :=
    solo₀.kept_steps (tidy.congr (by rw [state])) (calm.kept s) enough steps
  have later := solo₀.later grows solo.underway
  have evaluator : p.evaluator = n := later.evaluator.trans s.evaluator
  have target' : p.target = target := later.target.trans s.target
  refine ⟨by omega, p, solo.underway.pass, evaluator, target', later.resolution, solo.exists_step total,
    fun f result => ⟨solo.filled kept result, ?_⟩⟩
  have all := opened.trans grows
  have shared' : e'.storeOf n' = e'.storeOf p.evaluator := by
    rw [evaluator, all.storeOf there', all.storeOf there, shared]
  rw [← target']
  exact solo.serves_again tidy' kept result total (all.evaluators_lt there') shared' (later.resolution ▸ positive) salt'

end VectorGraph.Engine
