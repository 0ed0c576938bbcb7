import VectorGraph.Proofs.Engine.Served

/-!
Passes in which nothing is dropped from the cache.

A step retains the cache of an evaluator if no key is lost from it and what has been computed for it is there
(`Engine.Retains`). That a pass that runs alone drops nothing is therefore a matter of its steps
(`Engine.Retaining`), whatever the capacity is; with room for what it may compute every run is such a one
(`Solo.retaining_of_spare`). The nodes whose operators have been run are those of the computations of the pass, each of
them once (`Engine.Logged`), and what has not been computed was in the cache from the outset on
(`Solo.computed_or_stored`).
-/
namespace VectorGraph.Engine

variable {e e' : Engine} {replies : Replies} {draws draws' : Draws} {k base m : Nat}
  {stock : List (CacheKey × Fragment)} {p p' : Pass} {U : Label → Prop} {F : Label → Fragment}

/-! ## Steps that drop nothing -/

/-- No key is lost from the cache of the evaluator `n`, and a fragment that has just been computed for it is stored. -/
structure Retains (n : Nat) (e e' : Engine) : Prop where
  old : ∀ x ∈ (e.cacheOf n).entries, x.1 ∈ (e'.cacheOf n).entries.map (·.1)
  new : ∀ (i : Nat) (c d : Computation) (f : Fragment), e.computations[i]? = some c → c.Open →
    c.store = e.storeOf n → e'.computations[i]? = some d → d.stage = .ended (.ok f) →
    e.keyOf c ∈ (e'.cacheOf n).entries.map (·.1)

/-- `m` steps, each possible where it is made, that retain the cache of the evaluator `n`. -/
inductive Retaining (replies : Replies) (n : Nat) : Nat → Engine → Engine → Prop where
  | none (e : Engine) : Retaining replies n 0 e e
  | more {m : Nat} {e e' : Engine} {event : Event} {turn : Turn} (before : Retaining replies n m e e')
      (step : e'.step event = some turn) (allowed : event.Allowed replies e') (retains : Retains n e' turn.engine) :
      Retaining replies n (m + 1) e turn.engine

theorem Retaining.steps {n : Nat} (run : Retaining replies n m e e') : Steps replies m e e' := by
  induction run with
  | none e => exact .none e
  | more before step allowed retains ih => exact .more ih step allowed

namespace SoloMove

variable (h : SoloMove replies k base stock draws p e draws' p' e')

include h

/-- Where no key is lost there was room for what is yielded, so that no entry is dropped. -/
theorem kept_of_retains (tidy : e.AllTidy) (kept : e.Kept base stock p) (retains : Retains p.evaluator e e') :
    e'.Kept base stock p' := by
  cases h.storeStep with
  | still perm before => exact h.kept_of_perm kept perm before
  | @yields j c f computation isOpen store running cache computations =>
    have there := (tidy.cacheOf h.before.store_lt)
    have low : j < e.computations.length := (List.getElem?_eq_some_iff.mp computation).1
    have cache' : e'.cacheOf p.evaluator = ((e.cacheOf p.evaluator).settle c.ticket (.ok f)).2 := by
      have same := h.later.evaluator
      rw [same] at cache
      exact cache
    have ended : e'.computations[j]? =
        some { c with stage := .ended ((e.cacheOf p.evaluator).settle c.ticket (.ok f)).1 } := by
      rw [computations, List.getElem?_set_self low]
    rcases there.room_of_settle running (cache' ▸ retains.old) fun answer =>
      cache' ▸ retains.new j c _ f computation isOpen store ended (by rw [answer]) with room | ⟨unable, empty⟩
    · exact h.kept_of_yielded tidy kept room computation isOpen running cache computations
    · -- nothing can be stored, so that the computation fails
      have entries := there.settle_entries running f
      rw [empty, List.length_nil, Int.toNat_of_nonpos (Int.le_of_lt unable), ← cache] at entries
      refine h.kept_of_perm kept (.of_eq (entries.trans empty.symm)) fun i d g hd stage => ?_
      rw [computations] at hd
      rcases getElem?_set_cases hd with ⟨rfl, rfl⟩ | ⟨-, hd⟩
      · have fails := there.settle_unable running f unable
        rw [fails] at stage
        cases stage
      · exact ⟨d, hd, stage⟩

/-- Where there is room for what may be yielded no key is lost. -/
theorem retains_of_room (tidy : e.AllTidy) (room : (∃ (i : Nat) (c : Computation), e.computations[i]? = some c ∧ c.Open) →
      ((e.cacheOf p.evaluator).entries.length : Int) < (e.cacheOf p.evaluator).capacity) :
    Retains p.evaluator e e' := by
  have evaluator := h.later.evaluator
  cases h.storeStep with
  | still perm before =>
    rw [evaluator] at perm
    refine ⟨fun x hx => List.mem_map_of_mem (perm.mem_iff.mpr hx), fun i c d f hc isOpen _ hd stage => ?_⟩
    obtain ⟨c', hc', ended⟩ := before i d f hd stage
    obtain rfl := Option.some.inj (hc.symm.trans hc')
    exact absurd ended (isOpen _)
  | @yields j c f computation isOpen store running cache computations =>
    obtain ⟨-, entries⟩ := (tidy.cacheOf h.before.store_lt).settle_ok running (room ⟨j, c, computation, isOpen⟩) (f := f)
    rw [evaluator] at cache
    rw [← cache] at entries
    refine ⟨fun x hx => ?_, fun i c' d g hc isOpen' _ hd stage => ?_⟩
    · rw [entries]
      exact List.mem_map_of_mem (List.mem_append_left _ hx)
    · rw [entries]
      rcases getElem?_set_cases (computations ▸ hd) with ⟨rfl, -⟩ | ⟨-, old⟩
      · obtain rfl := Option.some.inj (computation.symm.trans hc)
        simp
      · obtain rfl := Option.some.inj (old.symm.trans hc)
        exact absurd stage (isOpen' _)

end SoloMove

namespace Solo

/-- What is true at the outset of a pass that drops nothing, and is kept by each move that drops nothing, is true all
along. -/
theorem along_retaining {P : Draws → Pass → Engine → Prop} {e₀ : Engine} {p₀ : Pass} {draws₀ : Draws}
    (h : Solo replies draws₀ k base stock p₀ e₀) (outset : P draws₀ p₀ e₀)
    (kept : ∀ {draws p e draws' p' e'}, SoloMove replies k base stock draws p e draws' p' e' →
      Retains p.evaluator e e' → P draws p e → P draws' p' e') (run : Retaining replies p₀.evaluator m e₀ e) :
    ∃ draws p, Solo replies draws k base stock p e ∧ P draws p e ∧ Grows e₀ e ∧ e.graph = e₀.graph := by
  induction run with
  | none e => exact ⟨draws₀, p₀, h, outset, .refl e, rfl⟩
  | more before step allowed retains ih =>
    obtain ⟨draws, p, solo, there, grows, graph⟩ := ih h outset
    have move := move_of_step step allowed
    obtain ⟨draws', p', solo', -, grows', graph', drawn⟩ := solo.move move
    rw [← (h.later grows solo.underway).evaluator] at retains
    exact ⟨draws', p', solo', kept ⟨solo, solo', move, grows', graph', drawn⟩ retains there, grows.trans grows',
      graph'.trans graph⟩

/-- A pass that drops nothing leaves an entry for everything that it computes. -/
theorem kept_retaining {e₀ : Engine} {p₀ : Pass} {draws₀ : Draws} (h : Solo replies draws₀ k base stock p₀ e₀)
    (tidy : e₀.AllTidy) (kept : e₀.Kept base stock p₀) (run : Retaining replies p₀.evaluator m e₀ e) :
    ∃ draws p, Solo replies draws k base stock p e ∧ (e.AllTidy ∧ e.Kept base stock p) ∧ Grows e₀ e ∧
      e.graph = e₀.graph := by
  apply h.along_retaining (P := fun _ p e => e.AllTidy ∧ e.Kept base stock p) ⟨tidy, kept⟩ ?_ run
  rintro draws p e draws' p' e' move retains ⟨tidy, kept⟩
  exact ⟨(move.move.cacheStep move.before.ledger).tidy tidy, move.kept_of_retains tidy kept retains⟩

/-- A pass that drops nothing takes from the cache what is recalled from the outset on. -/
theorem serving_retaining {e₀ : Engine} {p₀ : Pass} {draws₀ : Draws} (h : Solo replies draws₀ k base stock p₀ e₀)
    (serving : e₀.Serving base stock p₀ U F) (distinct : (stock.map (·.1)).Nodup)
    (run : Retaining replies p₀.evaluator m e₀ e) :
    ∃ draws p, Solo replies draws k base stock p e ∧ e.Serving base stock p U F ∧ Grows e₀ e ∧
      e.graph = e₀.graph := by
  apply h.along_retaining (P := fun _ p e => e.Serving base stock p U F) serving ?_ run
  intro draws p e draws' p' e' move retains serving
  exact move.serving distinct serving (move.kept_of_retains serving.tidy serving.kept retains)

/-- With room for all that is not recalled, a pass drops nothing. -/
theorem retaining_of_spare {e₀ : Engine} {p₀ : Pass} {draws₀ : Draws} (h : Solo replies draws₀ k base stock p₀ e₀)
    (serving : e₀.Serving base stock p₀ U F) (distinct : (stock.map (·.1)).Nodup) (others : List Label)
    (left : ∀ v, e₀.graph.Upstream v p₀.target → ¬ U v → v ∈ others)
    (spare : others = [] ∨ (stock.length + others.length : Int) ≤ e₀.settings.maxCacheEntries)
    (run : Steps replies m e₀ e) : Retaining replies p₀.evaluator m e₀ e := by
  induction run with
  | none e => exact .none e
  | more before step allowed ih =>
    obtain ⟨draws, p, solo, serving', -, grows, graph⟩ := h.serving_steps serving distinct others left spare before
    have move := move_of_step step allowed
    obtain ⟨draws', p', solo', -, grows', graph', drawn⟩ := solo.move move
    have later := h.later grows solo.underway
    refine .more (ih h serving left spare) step allowed ?_
    rw [← graph, ← later.target] at left
    rw [← grows.settings] at spare
    rw [← later.evaluator]
    exact SoloMove.retains_of_room ⟨solo, solo', move, grows', graph', drawn⟩ serving'.tidy
      (solo.room_of_spare serving' left spare)

end Solo

/-! ## What has been computed -/

/-- The operators that the pass has run are those of its computations, each of them once. -/
structure Logged (e : Engine) (base : Nat) (p : Pass) : Prop where
  once : p.computed.Nodup
  mem : ∀ v, v ∈ p.computed ↔ ∃ (i : Nat) (c : Computation), base ≤ i ∧ e.computations[i]? = some c ∧
    c.stage ≠ .queued ∧ c.node.id = v

/-- A pass that has just been started has computed nothing. -/
theorem Started.logged {n : Nat} {target : Label} {salt : String} (s : Started e n target salt p e') :
    e'.Logged e.computations.length p := by
  obtain ⟨log, rfl⟩ := s.state
  refine ⟨by simp [s.computed], fun v => ?_⟩
  rw [s.computed]
  refine iff_of_false List.not_mem_nil ?_
  rintro ⟨i, c, low, hc, -⟩
  exact absurd (List.getElem?_eq_some_iff.mp hc).1 (Nat.not_lt.mpr low)

/-- Every move keeps the log, and adds to it what it runs. -/
theorem SoloMove.logged (h : SoloMove replies k base stock draws p e draws' p' e') (logged : e.Logged base p) :
    e'.Logged base p' := by
  cases h.runs with
  | none unrun computed ids =>
    refine ⟨computed ▸ logged.once, fun v => ?_⟩
    rw [computed, logged.mem]
    constructor
    · rintro ⟨i, c, low, hc, begun, rfl⟩
      obtain ⟨d, hd, later⟩ := h.grows.computations i c hc
      exact ⟨i, d, low, hd, fun queued => begun ((unrun.computations i c d hc hd).mp queued), by rw [later.node]⟩
    · rintro ⟨i, d, low, hd, begun, rfl⟩
      cases hc : e.computations[i]? with
      | none => exact absurd (unrun.new i d hc hd) begun
      | some c =>
        obtain ⟨d', hd', later⟩ := h.grows.computations i c hc
        obtain rfl := Option.some.inj (hd.symm.trans hd')
        exact ⟨i, c, low, hc, fun queued => begun ((unrun.computations i c _ hc hd).mpr queued), by rw [later.node]⟩
  | @one _ i c d low computation queued pass computations begun =>
    have there : e'.computations[i]? = some d := by
      rw [computations, List.getElem?_set_self (List.getElem?_eq_some_iff.mp computation).1]
    obtain ⟨d', hd', later⟩ := h.grows.computations i c computation
    obtain rfl := Option.some.inj (there.symm.trans hd')
    -- A node has one computation in the pass, and this one has not begun: so the log does not name it yet.
    have new : c.node.id ∉ p.computed := by
      intro old
      obtain ⟨j, c', low', hc', begun', same⟩ := (logged.mem _).mp old
      obtain rfl := h.before.underway.distinct j i c' c hc' computation low' low same
      obtain rfl := Option.some.inj (computation.symm.trans hc')
      exact begun' queued
    refine ⟨List.nodup_append.mpr ⟨logged.once, by simp, fun a ha b hb same => ?_⟩, fun v => ?_⟩
    · rw [List.mem_singleton] at hb
      exact new (hb ▸ same ▸ ha)
    · rw [List.mem_append, List.mem_singleton, logged.mem]
      constructor
      · rintro (⟨j, c', low', hc', begun', rfl⟩ | rfl)
        · refine ⟨j, c', low', ?_, begun', rfl⟩
          refine computations ▸ getElem?_set_of_ne ?_ hc'
          rintro rfl
          obtain rfl := Option.some.inj (computation.symm.trans hc')
          exact begun' queued
        · exact ⟨i, d, low, there, begun, by rw [later.node]⟩
      · rintro ⟨j, c', low', hc', begun', rfl⟩
        rcases getElem?_set_cases (computations ▸ hc') with ⟨-, rfl⟩ | ⟨-, old⟩
        · exact .inr (by rw [later.node])
        · exact .inl ⟨j, c', low', old, begun', rfl⟩

namespace Solo

theorem logged_steps {e₀ : Engine} {p₀ : Pass} {draws₀ : Draws} (h : Solo replies draws₀ k base stock p₀ e₀)
    (logged : e₀.Logged base p₀) (run : Steps replies m e₀ e) (pass : e.passes[k]? = some p) : e.Logged base p := by
  obtain ⟨draws, q, solo, logged', -⟩ :=
    h.along (P := fun _ p e => e.Logged base p) logged (fun move _ _ logged => move.logged logged) run
  obtain rfl := Option.some.inj (pass.symm.trans solo.underway.pass)
  exact logged'

section Closed

variable (h : Solo replies draws k base stock p e) (closed : p.result ≠ none) (logged : e.Logged base p)

include h closed logged

/-- What a closed pass has computed are the nodes of its computations. -/
theorem mem_computed_iff {v : Label} : v ∈ p.computed ↔
    ∃ (i : Nat) (c : Computation), base ≤ i ∧ e.computations[i]? = some c ∧ c.node.id = v := by
  rw [logged.mem]
  constructor
  · rintro ⟨i, c, low, hc, -, name⟩
    exact ⟨i, c, low, hc, name⟩
  · rintro ⟨i, c, low, hc, name⟩
    obtain ⟨r, ended, -⟩ := h.result_of_computation closed low hc
    refine ⟨i, c, low, hc, fun queued => ?_, name⟩
    rw [queued] at ended
    cases ended

/-- The target depends on what is computed. -/
theorem upstream_of_computed {v : Label} (computed : v ∈ p.computed) : e.graph.Upstream v p.target := by
  obtain ⟨i, c, low, hc, rfl⟩ := (h.mem_computed_iff closed logged).mp computed
  exact h.upstream_of_own low hc

/-- A node that has yielded a fragment has been computed, or there was an entry for it from the outset on, under the key
that the fragments of its sources make. -/
theorem computed_or_stored {v : Label} {f : Fragment} (done : p.result? v = some (.ok f)) :
    v ∈ p.computed ∨ ∃ n, e.graph.node? v = some n ∧
      (e.keyFor p.resolution n (e.inputsBy (yielded p) v), f) ∈ stock := by
  cases h.underway.sound v _ (Pass.result?_eq_some.mp done) with
  | gathered result gathers => cases result
  | missed node gathers missing result => cases result
  | @computed n got i c node gathers complete computation key store stage own old =>
    by_cases low : base ≤ i
    · obtain ⟨rfl, -⟩ := own low
      exact .inl ((h.mem_computed_iff closed logged).mpr ⟨i, c, low, computation, Graph.node?_id node⟩)
    · obtain ⟨g, same, there⟩ := old (Nat.lt_of_not_le low)
      obtain rfl := Except.ok.inj same
      refine .inr ⟨n, node, ?_⟩
      rw [inputsBy_yielded gathers]
      exact there

end Closed

/-- A pass that comes to a fragment has visited the target and what it depends on, and each of these has yielded a
fragment. -/
theorem visited_of_ok (h : Solo replies draws k base stock p e) {f : Fragment} (result : p.result = some (.ok f))
    {v : Label} : v ∈ p.visited ↔ e.graph.Upstream v p.target := by
  have closed : p.result ≠ none := by
    rw [result]
    exact Option.some_ne_none _
  rw [h.visited_iff closed]
  constructor
  · intro finished
    obtain ⟨r, done⟩ := Option.ne_none_iff_exists'.mp finished
    exact h.underway.within v (by rw [Pass.result?_eq_some.mp done]; exact Option.some_ne_none _)
  · intro up
    obtain ⟨g, hg⟩ := h.result_of_upstream (h.told _ result).1 up
    rw [hg]
    exact Option.some_ne_none _

end Solo

end VectorGraph.Engine
