import VectorGraph.Proofs.Engine.Missing
import VectorGraph.Proofs.Engine.Replaced
import VectorGraph.Proofs.Engine.Served

/-!
Evaluators to which a cache is offered.

An evaluator uses the cache that it is offered if there are entries in it (`storeOf_offered`), and then shares it with
the others that do (`shared_cache_serves`). A cache without entries it takes for none: it opens one of its own. So two
evaluators to which such a cache is offered share nothing, and the second one computes again whatever the first one
has computed (`empty_offer_computes_again`).
-/
namespace VectorGraph

namespace Engine

variable {e e' : Engine} {replies : Replies} {draws draws' : Draws} {k base : Nat}
  {stock : List (CacheKey × Fragment)} {p p' : Pass} {s : Nat}

/-- A cache with entries is used. -/
theorem addEvaluator_of_entries (entries : (e.caches.getD s default).entries ≠ []) :
    e.addEvaluator (some s) = { e with evaluators := e.evaluators ++ [{ store := s }] } := by
  have useful : (some s).filter (fun store => !(e.caches.getD store default).entries.isEmpty) = some s := by
    rw [Option.filter_eq_some_iff]
    exact ⟨rfl, by simpa using entries⟩
  simp only [addEvaluator, useful]

/-- A cache without entries is as good as none. -/
theorem addEvaluator_of_empty (empty : (e.caches.getD s default).entries = []) :
    e.addEvaluator (some s) = e.addEvaluator none := by
  have useless : (some s).filter (fun store => !(e.caches.getD store default).entries.isEmpty) = none := by
    rw [Option.filter_some, empty]
    rfl
  simp only [addEvaluator, useless, Option.filter_none]

/-- Two evaluators are opened, and each is offered the same cache. -/
def offerTwice (e : Engine) (s : Nat) : Engine := (e.addEvaluator (some s)).addEvaluator (some s)

@[simp]
theorem length_offerTwice (e : Engine) (s : Nat) :
    (e.offerTwice s).evaluators.length = e.evaluators.length + 2 := by
  simp only [offerTwice, addEvaluator]
  split <;> split <;> simp

theorem offerTwice_of_entries (entries : (e.caches.getD s default).entries ≠ []) :
    e.offerTwice s = { e with evaluators := e.evaluators ++ [{ store := s }] ++ [{ store := s }] } := by
  rw [offerTwice, addEvaluator_of_entries entries]
  exact addEvaluator_of_entries entries

/-- Both use a cache with entries. -/
theorem storeOf_offered (entries : (e.caches.getD s default).entries ≠ []) :
    (e.offerTwice s).storeOf e.evaluators.length = s ∧ (e.offerTwice s).storeOf (e.evaluators.length + 1) = s := by
  rw [offerTwice_of_entries entries]
  constructor
  · simp [storeOf, List.getD_eq_getElem?_getD]
  · simp [storeOf, List.getD_eq_getElem?_getD]

theorem entries_append_blank (empty : (e.caches.getD s default).entries = []) (capacity : Int) :
    ((e.caches ++ [({ capacity := capacity } : Cache)]).getD s default).entries = [] := by
  rw [List.getD_eq_getElem?_getD, List.getElem?_append]
  split
  · rwa [← List.getD_eq_getElem?_getD]
  · rw [List.getElem?_singleton]
    split <;> rfl

theorem offerTwice_of_empty (empty : (e.caches.getD s default).entries = []) :
    e.offerTwice s = { e with
      caches := e.caches ++ [{ capacity := e.settings.maxCacheEntries }] ++ [{ capacity := e.settings.maxCacheEntries }]
      evaluators := e.evaluators ++ [{ store := e.caches.length }] ++ [{ store := e.caches.length + 1 }] } := by
  have first : e.addEvaluator (some s) = { e with
      caches := e.caches ++ [{ capacity := e.settings.maxCacheEntries }]
      evaluators := e.evaluators ++ [{ store := e.caches.length }] } := addEvaluator_of_empty empty
  rw [offerTwice, first]
  refine (addEvaluator_of_empty (entries_append_blank empty _)).trans ?_
  simp [addEvaluator]

/-- Each opens a cache of its own where the one that is offered has no entries. -/
theorem storeOf_offered_empty (empty : (e.caches.getD s default).entries = []) :
    (e.offerTwice s).storeOf e.evaluators.length = e.caches.length ∧
    (e.offerTwice s).storeOf (e.evaluators.length + 1) = e.caches.length + 1 := by
  rw [offerTwice_of_empty empty]
  constructor
  · simp [storeOf, List.getD_eq_getElem?_getD]
  · simp [storeOf, List.getD_eq_getElem?_getD]

/-- These caches have no entries yet, and the one that was offered still has none. -/
theorem entries_offered_empty (there : s < e.caches.length) (empty : (e.caches.getD s default).entries = []) :
    ((e.offerTwice s).cacheOf e.evaluators.length).entries = [] ∧
    ((e.offerTwice s).cacheOf (e.evaluators.length + 1)).entries = [] ∧
    ((e.offerTwice s).caches.getD s default).entries = [] := by
  obtain ⟨first, second⟩ := storeOf_offered_empty empty
  rw [cacheOf, cacheOf, first, second, offerTwice_of_empty empty]
  refine ⟨?_, ?_, ?_⟩
  · simp [List.getD_eq_getElem?_getD]
  · simp [List.getD_eq_getElem?_getD]
  · rw [List.getD_eq_getElem?_getD, List.append_assoc, List.getElem?_append_left there, ← List.getD_eq_getElem?_getD]
    exact empty

theorem Ledger.offerTwice {u : Usage} (h : Ledger u.replies draws e) (s : Nat) :
    Ledger u.replies draws (e.offerTwice s) ∧ Grows e (e.offerTwice s) := by
  obtain ⟨ledger, grows⟩ := h.addEvaluator (some s)
  obtain ⟨ledger', grows'⟩ := ledger.addEvaluator (some s)
  exact ⟨ledger', grows.trans grows'⟩

theorem Calm.offerTwice_of_empty (h : Calm e) (empty : (e.caches.getD s default).entries = []) :
    Calm (e.offerTwice s) := by
  rw [Engine.offerTwice_of_empty empty]
  exact h.congr rfl rfl rfl

namespace Solo

/-- Nothing is stored in a cache that is not that of the pass. -/
theorem empty_move (h : Solo replies draws k base stock p e) (step : CacheStep e e') {t : Nat}
    (other : t ≠ e.storeOf p.evaluator) (empty : (e.caches.getD t default).entries = []) :
    (e'.caches.getD t default).entries = [] := by
  -- a cache is replaced, and if it is this one the new one has no entries either
  have set : ∀ {s : Nat} {new : Cache}, e'.caches = e.caches.set s new → (s = t → new.entries = []) →
      (e'.caches.getD t default).entries = [] := by
    intro s new caches still
    rw [caches, List.getD_eq_getElem?_getD, List.getElem?_set]
    split
    · next same =>
      split
      · exact still same
      · rfl
    · rwa [← List.getD_eq_getElem?_getD]
  cases step with
  | same caches all =>
    rw [caches]
    exact empty
  | @asks j q key pass caches all =>
    refine set caches fun same => ?_
    have none_ : (e.cacheOf q.evaluator).entries = [] := by
      rw [Engine.cacheOf, same, empty]
    exact List.Perm.eq_nil (none_ ▸ Cache.request_perm (e.cacheOf q.evaluator) key)
  | ends computation isOpen caches computations =>
    exact set caches fun same => absurd (same.symm.trans (h.of_open computation isOpen).2) other

/-- So it is all along. -/
theorem empty_steps {e₀ : Engine} {p₀ : Pass} {draws₀ : Draws} (h : Solo replies draws₀ k base stock p₀ e₀)
    {t : Nat} (other : t ≠ e₀.storeOf p₀.evaluator) (empty : (e₀.caches.getD t default).entries = []) {m : Nat}
    (run : Steps replies m e₀ e) : (e.caches.getD t default).entries = [] := by
  obtain ⟨_, p, -, ⟨-, still⟩, -⟩ :=
    h.along (P := fun _ p e => t ≠ e.storeOf p.evaluator ∧ (e.caches.getD t default).entries = []) ⟨other, empty⟩
      (fun move _ _ ⟨other, empty⟩ => ⟨move.storeOf ▸ other,
        move.before.empty_move (move.move.cacheStep move.before.ledger) other empty⟩) run
  exact still

end Solo

/-- Two evaluators are offered a cache without entries. A pass of the first one is started where nothing else goes on.
When it is closed there is still nothing in the cache that was offered, and a pass of the second one for the same
target at the same resolution computes the target and everything that it depends on, unless an operator fails.
Whatever order the steps are made in, there are only so many of them, and one is possible until the pass is closed. -/
theorem empty_offer_computes_again {u : Usage} {settings : Settings} {canRender : Bool} {digest : Digest}
    {target : Label} {resolution : Json} {r : Extent} (salt salt' : String)
    (run : Reaches u (blank settings canRender digest) e) (rest : ∀ event, e.step event = none)
    (there : s < e.caches.length) (empty : (e.caches.getD s default).entries = [])
    (capacity : 0 ≤ settings.maxCacheEntries) (total : AlwaysReplies u.replies)
    (positive : resolutionOf resolution = .ok r) (acyclic : e.graph.checkAcyclic target = .ok ())
    (connected : e.graph.Connected target) :
    ∃ turn, (e.offerTwice s).start e.evaluators.length target resolution salt = .ok turn ∧
      ∃ bound, ∀ m e', Steps u.replies m turn.engine e' → m ≤ bound ∧
        ∃ p, e'.passes[e.passes.length]? = some p ∧ p.target = target ∧ p.resolution = r ∧
          (p.result = none → ∃ event turn', e'.step event = some turn' ∧ event.Allowed u.replies e') ∧
          (p.result ≠ none → (e'.caches.getD s default).entries = [] ∧
            ∃ turn', e'.start (e.evaluators.length + 1) target resolution salt' = .ok turn' ∧
              ∃ bound', ∀ m' e'', Steps u.replies m' turn'.engine e'' → m' ≤ bound' ∧
                ∃ q, e''.passes[e'.passes.length]? = some q ∧
                  (q.result = none → ∃ event turn'', e''.step event = some turn'' ∧ event.Allowed u.replies e'') ∧
                  (q.result ≠ none →
                    (∀ c ∈ e''.computations.drop e'.computations.length, ¬ e''.Raised u.replies c) →
                    ∃ first F, Evaluated e'' u.replies first q F)) := by
  obtain ⟨draws, ledger, old⟩ := run.ledger (blank_ledger u.replies settings canRender digest fun _ => default)
  obtain ⟨ledger₀, grows₀⟩ := ledger.offerTwice s
  have calm := (ledger.calm_of_rest total rest).offerTwice_of_empty empty
  have same := offerTwice_of_empty empty
  have graph₀ : (e.offerTwice s).graph = e.graph := by rw [same]
  have passes₀ : (e.offerTwice s).passes = e.passes := by rw [same]
  obtain ⟨store, store'⟩ := storeOf_offered_empty empty
  obtain ⟨own, own', offered⟩ := entries_offered_empty there empty
  have first : e.evaluators.length < (e.offerTwice s).evaluators.length := by simp
  have second : e.evaluators.length + 1 < (e.offerTwice s).evaluators.length := by simp
  obtain ⟨turn, started, bound, all⟩ := calm.runs_alone salt ledger₀ first own positive (graph₀ ▸ acyclic)
  refine ⟨turn, started, bound, fun m e' steps => ?_⟩
  obtain ⟨less, grows, graph, draws', p, runs, solo, -, evaluator, target', resolution'⟩ := all m e' steps
  refine ⟨less, p, passes₀ ▸ solo.underway.pass, target', resolution', solo.exists_step total, fun closed => ?_⟩
  -- neither the cache that was offered nor that of the second evaluator is the one of the pass
  have still : ∀ t, t ≠ e.caches.length → ((e.offerTwice s).caches.getD t default).entries = [] →
      (e'.caches.getD t default).entries = [] := by
    intro t other none_
    obtain ⟨-, opened, -, _, p₀, _, solo₀, -, evaluator₀, -⟩ := all 0 _ (.none _)
    obtain ⟨_, -, opens⟩ := started_of_start started
    obtain ⟨log, state⟩ := opens.state
    refine solo₀.empty_steps ?_ (by rw [state]; exact none_) steps
    rw [evaluator₀, opened.storeOf first, store]
    exact other
  have own₂ : (e'.cacheOf (e.evaluators.length + 1)).entries = [] := by
    rw [cacheOf, store'] at own'
    rw [cacheOf, grows.storeOf second, store']
    exact still _ (Nat.succ_ne_self _) own'
  have graph' : e'.graph = e.graph := graph.trans graph₀
  obtain ⟨turn', started', bound', all'⟩ :=
    (solo.calm closed).runs_alone salt' solo.ledger (grows.evaluators_lt second) own₂ positive (graph' ▸ acyclic)
  refine ⟨still s (Nat.ne_of_lt there) offered, turn', started', bound', fun m' e'' steps' => ?_⟩
  obtain ⟨less', grows', graph'', _, q, _, solo', recorded, -, target'', -⟩ := all' m' e'' steps'
  refine ⟨less', q, solo'.underway.pass, solo'.exists_step total, fun closed' none_ => ?_⟩
  have settings' : e''.settings = settings :=
    ((grows₀.trans grows).trans grows').settings.trans old.settings
  refine ⟨_, _, solo'.evaluated recorded closed' ?_ (solo'.ledger.clean (settings' ▸ capacity) none_)⟩
  rw [graph'', graph', target'']
  exact connected

end Engine

namespace Studio

open Engine

/-- Two evaluators over a graph of one colour, each of which has been offered the same cache without entries. -/
def paired : Studio where
  engine := offerTwice { blank {} false fullDigest with
    graph := { nodes := [⟨.text "c", .color, []⟩] }, caches := [{ capacity := 8 }] } 0

/-- Orders the colour from an evaluator. -/
def orderColor (s : Studio) (evaluator : Nat) : List (Except Failure Product) × Studio :=
  s.carryOut (fun _ _ => .error .notConfigured) (fun _ => "") [⟨evaluator, .fragment, .text "c", .whole 8⟩]

/-- The cache that was offered has no entries when the first evaluator has shown the colour, and the second evaluator
computes it again. -/
theorem empty_offer_unused :
    (orderColor paired 0).1.map (fun result => result.toOption.bind Product.fragment?) =
      [some ⟨"<rect x=\"0\" y=\"0\" width=\"8\" height=\"8\" fill=\"rgb(255,255,255)\"/>", []⟩] ∧
    ((orderColor paired 0).2.engine.caches.getD 0 default).entries = [] ∧
    (orderColor (orderColor paired 0).2 1).2.engine.evaluators.map (·.computed) = [[.text "c"], [.text "c"]] ∧
    ((orderColor (orderColor paired 0).2 1).2.engine.caches.map (·.misses)) = [0, 1, 1] := by
  refine ⟨?_, ?_, ?_, ?_⟩ <;> decide +kernel

end Studio

end VectorGraph
