import VectorGraph.Proofs.Engine.Course

/-!
Runs of a pass that runs alone.

What is true of the engine while such a pass runs is put together in `Engine.Solo`: the ledger, that the
pass is underway, and where the entries of its cache come from. Every move keeps it and takes some of the work
that remains (`Solo.move`), so that a run can only be as long as that. What is kept by every such move is true all
along a run (`Solo.along`). Once the pass is closed its evaluator tells what it told.
-/
namespace VectorGraph.Engine

variable {e e' : Engine} {replies : Replies} {draws : Draws} {k base : Nat}
  {stock : List (CacheKey × Fragment)} {p p' : Pass} {v : Label}

/-! ## What a move leaves alone -/

/-- Evaluators are told of a pass, and the result of a pass is set, where it is closed and nowhere else. -/
def Unclosed (e e' : Engine) : Prop :=
  e'.evaluators = e.evaluators ∧ ∀ (k : Nat) (p p' : Pass), e.passes[k]? = some p →
    e'.passes[k]? = some p' → p'.result = p.result

theorem Unclosed.set {q q' : Pass} (evaluators : e'.evaluators = e.evaluators)
    (passes : e'.passes = e.passes.set k q') (hq : e.passes[k]? = some q) (result : q'.result = q.result) :
    Unclosed e e' := by
  refine ⟨evaluators, fun j p p' hp hp' => ?_⟩
  rw [passes] at hp'
  rcases getElem?_set_cases hp' with ⟨rfl, rfl⟩ | ⟨-, hp'⟩
  · obtain rfl := Option.some.inj (hq.symm.trans hp)
    exact result
  · rw [Option.some.inj (hp'.symm.trans hp)]

theorem Looks.unclosed {q : Pass} {node : Node} {inputs : Inputs} (looks : Looks e k q node inputs e')
    (hp : e.passes[k]? = some p) (result : q.result = p.result) : Unclosed e e' := by
  cases looks with
  | found entry => exact .set rfl rfl hp result
  | joined missing running shared => exact .set rfl rfl hp result
  | started missing idle => exact .set rfl rfl hp result

theorem Continues.unclosed {q : Pass} {kind : Kind} {inputs : List (Label × Label)}
    (continued : Continues e k q v kind inputs e') (hp : e.passes[k]? = some p)
    (result : q.result = p.result) : Unclosed e e' := by
  cases continued with
  | fails gathered => exact .set rfl rfl hp result
  | misses gathered missing => exact .set rfl rfl hp result
  | looks gathered complete looked => exact looked.unclosed hp result
  | @awaits taken rest socket source oneByOne split passed unknown =>
    obtain ⟨tasks, asked⟩ := (q.set v (.gathering ⟨kind, inputs, (socket, source) :: rest⟩)).exists_ask source
    exact .set rfl rfl hp (by rw [asked]; exact result)

/-- A move closes a pass whose target is finished, or no pass at all. -/
theorem Move.closes_or (ledger : Ledger replies draws e) (m : Move replies e e') :
    (∃ (k : Nat) (p : Pass) (r : Except Failure Fragment), e.passes[k]? = some p ∧ p.result = none ∧
      p.result? p.target = some r ∧ e' = (e.close k p r).engine) ∨ Unclosed e e' := by
  cases m with
  | absent pass fresh unknown => exact .inr (.set rfl rfl pass rfl)
  | gathers pass fresh known sideBySide some_ => exact .inr (.set rfl rfl pass rfl)
  | begins pass fresh known continued => exact .inr (continued.unclosed pass rfl)
  | @launches k p v needs sources pass gathering sideBySide unasked all =>
    obtain ⟨tasks, asked⟩ := Pass.exists_foldl_ask sources (p.set v (.gathering { needs with pending := [] }))
    exact .inr (.set rfl rfl pass (by rw [asked]; rfl))
  | proceeds pass gathering ready continued =>
    exact .inr ((ledger.goesOn pass gathering continued).unclosed pass rfl)
  | runsOn computation pass queued work => exact .inr (.set rfl rfl pass rfl)
  | runsOut computation pass queued yields => exact .inr (.set rfl rfl pass rfl)
  | replies computation painted allowed =>
    refine .inr ⟨rfl, fun k p p' hp hp' => ?_⟩
    rw [Option.some.inj (hp'.symm.trans hp)]
  | delivers pass waiting computation stage => exact .inr (.set rfl rfl pass rfl)
  | closes pass unclosed finished => exact .inl ⟨_, _, _, pass, unclosed, finished, rfl⟩

/-- The entries of every cache of `e'` were there in `e`, but for those of computations that had not
ended. -/
def EntriesFrom (e e' : Engine) : Prop :=
  ∀ (s : Nat) (cache' : Cache), e'.caches[s]? = some cache' → ∃ cache : Cache, e.caches[s]? = some cache ∧
    ∀ x ∈ cache'.entries, x ∈ cache.entries ∨
      ∃ (i : Nat) (c : Computation), e.computations[i]? = some c ∧ c.Open ∧ e.keyOf c = x.1

theorem EntriesFrom.same (h : e'.caches = e.caches) : EntriesFrom e e' := by
  intro s cache' hs
  exact ⟨cache', h ▸ hs, fun x hx => .inl hx⟩

/-- One cache is replaced. -/
theorem EntriesFrom.set {s : Nat} {old new : Cache} (hs : e.caches[s]? = some old)
    (caches : e'.caches = e.caches.set s new) (entries : ∀ x ∈ new.entries, x ∈ old.entries ∨
      ∃ (i : Nat) (c : Computation), e.computations[i]? = some c ∧ c.Open ∧ e.keyOf c = x.1) :
    EntriesFrom e e' := by
  intro t cache' ht
  rw [caches] at ht
  rcases getElem?_set_cases ht with ⟨rfl, rfl⟩ | ⟨-, ht⟩
  · exact ⟨old, hs, entries⟩
  · exact ⟨cache', ht, fun x hx => .inl hx⟩

theorem Looks.entriesFrom {q : Pass} {node : Node} {inputs : Inputs} (looks : Looks e k q node inputs e')
    (ledger : Ledger replies draws e) (hq : q.evaluator < e.evaluators.length) : EntriesFrom e e' := by
  have hcache := ledger.cacheOf hq
  cases looks with
  | found entry => exact .set hcache rfl fun x hx => .inl (Cache.mem_touch.mp hx)
  | joined missing running shared => exact .set hcache rfl fun x hx => .inl hx
  | started missing idle => exact .set hcache rfl fun x hx => .inl hx

theorem Continues.entriesFrom {q : Pass} {kind : Kind} {inputs : List (Label × Label)}
    (continued : Continues e k q v kind inputs e') (ledger : Ledger replies draws e)
    (hq : q.evaluator < e.evaluators.length) : EntriesFrom e e' := by
  cases continued with
  | fails gathered => exact .same rfl
  | misses gathered missing => exact .same rfl
  | looks gathered complete looked => exact looked.entriesFrom ledger hq
  | awaits oneByOne split passed unknown => exact .same rfl

/-- An entry that is new is from a computation that has just ended. -/
theorem Move.entriesFrom (ledger : Ledger replies draws e) (m : Move replies e e') : EntriesFrom e e' := by
  have ends : ∀ {i : Nat} {c : Computation} {r : Except Failure Fragment}, e.computations[i]? = some c →
      c.Open → e'.caches = e.caches.set c.store ((e.caches.getD c.store default).settle c.ticket r).2 →
      EntriesFrom e e' := by
    intro i c r hc isOpen caches
    obtain ⟨cache, hcache, hget, spec⟩ := ledger.books.settledAs hc isOpen r
    rw [hget] at caches
    refine .set hcache caches fun x hx => ?_
    rcases spec.entries x hx with hx | ⟨f, rfl, -⟩
    · exact .inl hx
    · exact .inr ⟨i, c, hc, isOpen, rfl⟩
  cases m with
  | begins pass fresh known continued =>
    have low := ledger.evaluators _ _ pass
    exact continued.entriesFrom ledger low
  | proceeds pass gathering ready continued =>
    exact (ledger.goesOn pass gathering continued).entriesFrom ledger (ledger.evaluators _ _ pass)
  | runsOut computation pass queued yields =>
    exact ends computation (Computation.open_of_queued queued) rfl
  | replies computation painted allowed =>
    exact ends computation (Computation.open_of_painting painted) rfl
  | _ => exact .same rfl

/-! ## Steps of a pass that runs alone -/

/-- What is true of the engine while the pass `p` runs alone. -/
structure Solo (replies : Replies) (draws : Draws) (k base : Nat) (stock : List (CacheKey × Fragment))
    (p : Pass) (e : Engine) : Prop where
  ledger : Ledger replies draws e
  underway : Underway e k base stock p
  stocked : e.Stocked base stock p
  acyclic : e.graph.checkAcyclic p.target = .ok ()
  /-- A closed pass has told its evaluator. -/
  told : ∀ r, p.result = some r → p.result? p.target = some r ∧ ∃ v : Evaluator,
    e.evaluators[p.evaluator]? = some v ∧ v.visited = p.visited ∧ v.computed = p.computed

/-- `m` steps, each possible where it is made. -/
inductive Steps (replies : Replies) : Nat → Engine → Engine → Prop where
  | none (e : Engine) : Steps replies 0 e e
  | more {m : Nat} {e e' : Engine} {event : Event} {turn : Turn} (before : Steps replies m e e')
      (step : e'.step event = some turn) (allowed : event.Allowed replies e') :
      Steps replies (m + 1) e turn.engine

theorem no_move_of_calm (calm : Calm e) (m : Move replies e e') : False := by
  cases m with
  | absent pass fresh unknown => exact (calm.passes _ _ pass).stuck fresh (fun _ => nofun) fun _ => nofun
  | gathers pass fresh known sideBySide some_ =>
    exact (calm.passes _ _ pass).stuck fresh (fun _ => nofun) fun _ => nofun
  | begins pass fresh known continued =>
    exact (calm.passes _ _ pass).stuck fresh (fun _ => nofun) fun _ => nofun
  | launches pass gathering sideBySide unasked all =>
    exact (calm.passes _ _ pass).stuck gathering (fun _ => nofun) fun needs heq =>
      .inr ⟨sideBySide, Progress.gathering.inj heq ▸ unasked⟩
  | proceeds pass gathering ready continued =>
    exact (calm.passes _ _ pass).stuck gathering (fun _ => nofun) fun needs heq =>
      .inl (Progress.gathering.inj heq ▸ ready)
  | runsOn computation pass queued work =>
    obtain ⟨r, hr⟩ := calm.computations _ _ computation
    rw [queued] at hr
    cases hr
  | runsOut computation pass queued yields =>
    obtain ⟨r, hr⟩ := calm.computations _ _ computation
    rw [queued] at hr
    cases hr
  | replies computation painted allowed =>
    obtain ⟨r, hr⟩ := calm.computations _ _ computation
    rw [painted] at hr
    cases hr
  | delivers pass waiting computation stage =>
    exact (calm.passes _ _ pass).stuck waiting (fun _ => nofun) fun _ => nofun
  | closes pass unclosed finished => exact (calm.passes _ _ pass).not_finished unclosed finished

namespace Solo

theorem exists_rank (h : Solo replies draws k base stock p e) : ∃ rank, e.graph.Ranked p.target rank :=
  Graph.exists_rank h.acyclic

/-- A closed pass leaves nothing to do. -/
theorem calm (h : Solo replies draws k base stock p e) (closed : p.result ≠ none) : Calm e := by
  obtain ⟨rank, ranked⟩ := h.exists_rank
  obtain ⟨r, hr⟩ := Option.ne_none_iff_exists'.mp closed
  exact h.underway.calm ranked (h.told r hr).1 closed

/-- The pass in the state after a move is the pass later on. -/
theorem later (h : Solo replies draws k base stock p e) (grows : Grows e e')
    (underway : Underway e' k base stock p') : p.Later e'.computations p' := by
  obtain ⟨q, hq, hpq⟩ := grows.passes k p h.underway.pass
  rw [underway.pass] at hq
  obtain rfl := Option.some.inj hq
  exact hpq

/-- A computation that has not ended is one of the pass, in the cache of the pass. -/
theorem of_open (h : Solo replies draws k base stock p e) {i : Nat} {c : Computation}
    (hc : e.computations[i]? = some c) (isOpen : c.Open) : base ≤ i ∧ c.store = e.storeOf p.evaluator := by
  obtain ⟨low, -, waiting⟩ := h.underway.own_of_open hc isOpen
  obtain ⟨d, hd, -, store, -⟩ := h.ledger.tasks k p h.underway.pass _ _ waiting
  exact ⟨low, by rw [Option.some.inj (hc.symm.trans hd), store]⟩

/-- The node of a computation that has not been run yet waits for it. -/
theorem waiting_of_queued (h : Solo replies draws k base stock p e) {i : Nat} {c : Computation}
    (hc : e.computations[i]? = some c) (queued : c.stage = .queued) : p.progress? c.node.id = some (.waiting i) :=
  (h.underway.own_of_open hc (Computation.open_of_queued queued)).2.2

/-- What a move stores is from a computation that had not ended, and so from one of the pass. -/
theorem stocked_move (h : Solo replies draws k base stock p e) (m : Move replies e e')
    (ledger : Ledger replies draws' e') (grows : Grows e e') (underway : Underway e' k base stock p') :
    e'.Stocked base stock p' := by
  intro x hx
  have evaluators := h.ledger.evaluators k p h.underway.pass
  obtain ⟨cache, hcache, from_⟩ := m.entriesFrom h.ledger _ _
    (ledger.cacheOf (ledger.evaluators k p' underway.pass))
  rw [(h.later grows underway).evaluator, grows.storeOf evaluators, h.ledger.cacheOf evaluators] at hcache
  obtain rfl := Option.some.inj hcache
  have kept : ∀ (i : Nat) (c : Computation), base ≤ i → e.computations[i]? = some c → e.keyOf c = x.1 →
      x ∈ stock ∨ ∃ (i : Nat) (c : Computation), base ≤ i ∧ e'.computations[i]? = some c ∧
        e'.keyOf c = x.1 := by
    intro i c hi hc hkey
    obtain ⟨d, hd, hcd⟩ := grows.computations i c hc
    obtain ⟨q, hq⟩ := h.ledger.passes i c hc
    exact .inr ⟨i, d, hi, hd, (grows.keyOf hq hcd).trans hkey⟩
  rcases from_ x hx with hx | ⟨i, c, hc, isOpen, hkey⟩
  · rcases h.stocked x hx with stored | ⟨i, c, hi, hc, hkey⟩
    · exact .inl stored
    · exact kept i c hi hc hkey
  · exact kept i c (h.underway.own_of_open hc isOpen).1 hc hkey

/-- Every move keeps a pass alone, and takes some of the work that remains. -/
theorem move (h : Solo replies draws k base stock p e) (m : Move replies e e') :
    ∃ draws' p', Solo replies draws' k base stock p' e' ∧ remaining e' p' < remaining e p ∧
      Grows e e' ∧ e'.graph = e.graph ∧ Drawn draws e draws' e' := by
  obtain ⟨rank, ranked⟩ := h.exists_rank
  obtain ⟨draws', ledger, grows, drawn⟩ := m.upkeep h.ledger
  obtain ⟨p', underway, less⟩ := h.underway.move h.ledger ranked h.stocked m
  have later := h.later grows underway
  have graph := m.graph h.ledger
  have evaluators := h.ledger.evaluators k p h.underway.pass
  refine ⟨draws', p', ⟨ledger, underway, h.stocked_move m ledger grows underway, ?_, fun r hr => ?_⟩, less, grows,
    graph, drawn⟩
  · rw [graph, later.target]
    exact h.acyclic
  · have unclosed : p.result = none := by
      by_contra closed
      exact no_move_of_calm (h.calm closed) m
    rcases m.closes_or h.ledger with ⟨j, q, s, hq, hopen, finished, rfl⟩ | ⟨-, results⟩
    · obtain ⟨rfl, rfl⟩ := h.underway.closes_here hq hopen finished
      have hp' : p' = { q with result := some s } :=
        Option.some.inj (underway.pass.symm.trans
          (List.getElem?_set_self (List.getElem?_eq_some_iff.mp hq).1))
      subst hp'
      obtain rfl := Option.some.inj hr
      refine ⟨finished, ?_⟩
      exact ⟨_, (List.getElem?_modify_eq ..).trans (by rw [List.getElem?_eq_getElem evaluators]; rfl), rfl, rfl⟩
    · have kept := results k p p' h.underway.pass underway.pass
      rw [hr, unclosed] at kept
      cases kept

/-- Some step is possible until the pass is closed. -/
theorem exists_step (h : Solo replies draws k base stock p e) (total : AlwaysReplies replies)
    (unclosed : p.result = none) : ∃ event turn, e.step event = some turn ∧ event.Allowed replies e := by
  obtain ⟨rank, ranked⟩ := h.exists_rank
  exact h.underway.exists_step h.ledger ranked total unclosed

end Solo

/-- A move of a pass that runs alone, with what is true of the engine before it and after it. -/
structure SoloMove (replies : Replies) (k base : Nat) (stock : List (CacheKey × Fragment)) (draws : Draws) (p : Pass)
    (e : Engine) (draws' : Draws) (p' : Pass) (e' : Engine) : Prop where
  before : Solo replies draws k base stock p e
  after : Solo replies draws' k base stock p' e'
  move : Move replies e e'
  grows : Grows e e'
  graph : e'.graph = e.graph
  drawn : Drawn draws e draws' e'

theorem SoloMove.later {draws' : Draws} (h : SoloMove replies k base stock draws p e draws' p' e') :
    p.Later e'.computations p' :=
  h.before.later h.grows h.after.underway

/-- What a move of the pass `p` runs: none of its operators, or that of one of its computations, which draws from the
ids that the pass has by then. -/
inductive RunsOperator (base : Nat) (draws : Draws) (p : Pass) (e : Engine) : Draws → Pass → Engine → Prop where
  | none {p' : Pass} {e' : Engine} (unrun : Unrun e e') (computed : p'.computed = p.computed)
      (ids : p'.ids = p.ids) : RunsOperator base draws p e draws p' e'
  | one {e' : Engine} {i : Nat} {c d : Computation} (low : base ≤ i) (computation : e.computations[i]? = some c)
      (queued : c.stage = .queued) (pass : e.passes[c.pass]? = some p)
      (computations : e'.computations = e.computations.set i d) (begun : d.stage ≠ .queued) :
      RunsOperator base draws p e (Function.update draws i p.ids)
        { p with computed := p.computed ++ [c.node.id], ids := (e.workOf p c).2 } e'

theorem SoloMove.runs {draws' : Draws} (h : SoloMove replies k base stock draws p e draws' p' e') :
    RunsOperator base draws p e draws' p' e' := by
  cases h.drawn with
  | kept unrun =>
    obtain ⟨computed, ids⟩ := unrun.passes k p p' h.before.underway.pass h.after.underway.pass
    exact .none unrun computed ids
  | @run _ i c d q computation queued pass computations begun passes =>
    obtain ⟨low, rfl, -⟩ := h.before.underway.own_of_open computation (Computation.open_of_queued queued)
    obtain rfl := Option.some.inj (pass.symm.trans h.before.underway.pass)
    have told := h.after.underway.pass
    rw [passes, List.getElem?_set_self (List.getElem?_eq_some_iff.mp pass).1] at told
    rw [← Option.some.inj told]
    exact .one low computation queued pass computations begun

/-- What is true at the outset of a pass that runs alone, and is kept by each of its moves, is true all along. Every
step takes some of the work that remains. -/
theorem Solo.along {P : Draws → Pass → Engine → Prop} {e₀ : Engine} {p₀ : Pass} {draws₀ : Draws}
    (h : Solo replies draws₀ k base stock p₀ e₀) (outset : P draws₀ p₀ e₀)
    (kept : ∀ {draws p e draws' p' e'}, SoloMove replies k base stock draws p e draws' p' e' →
      Grows e₀ e → e.graph = e₀.graph → P draws p e → P draws' p' e')
    {m : Nat} (run : Steps replies m e₀ e) :
    ∃ draws p, Solo replies draws k base stock p e ∧ P draws p e ∧ remaining e p + m ≤ remaining e₀ p₀ ∧
      Grows e₀ e ∧ e.graph = e₀.graph := by
  induction run with
  | none e => exact ⟨draws₀, p₀, h, outset, Nat.le_refl _, .refl e, rfl⟩
  | more before step allowed ih =>
    obtain ⟨draws, p, solo, there, less, grows, graph⟩ := ih h outset kept
    have move := move_of_step step allowed
    obtain ⟨draws', p', solo', less', grows', graph', drawn⟩ := solo.move move
    have there' := kept ⟨solo, solo', move, grows', graph', drawn⟩ grows graph there
    exact ⟨draws', p', solo', there', by omega, grows.trans grows', graph'.trans graph⟩

/-- A pass that runs alone does so all along. -/
theorem Solo.onward {e₀ : Engine} {p₀ : Pass} {draws₀ : Draws} (h : Solo replies draws₀ k base stock p₀ e₀) {m : Nat}
    (run : Steps replies m e₀ e) : ∃ draws p, Solo replies draws k base stock p e ∧
      remaining e p + m ≤ remaining e₀ p₀ ∧ Grows e₀ e ∧ e.graph = e₀.graph := by
  obtain ⟨draws, p, solo, -, rest⟩ := h.along (P := fun _ _ _ => True) trivial (fun _ _ _ there => there) run
  exact ⟨draws, p, solo, rest⟩

/-- A pass that is started where nothing else goes on runs alone. -/
theorem Calm.solo {u : Usage} {n : Nat} {target : Label} {salt : String} (calm : Calm e)
    (ledger : Ledger u.replies draws e) (hn : n < e.evaluators.length) (s : Started e n target salt p e') :
    Solo u.replies draws e.passes.length e.computations.length (e.cacheOf n).entries p e' := by
  have underway : Underway e' e.passes.length e.computations.length (e.cacheOf n).entries p :=
    calm.underway s
  obtain ⟨log, rfl⟩ := s.state
  obtain ⟨ledger', -⟩ := ledger.addPass (s.evaluator ▸ hn) (s.target ▸ s.tasks) log
  refine ⟨ledger', underway, fun x hx => .inl ?_, s.target ▸ s.acyclic, fun r hr => ?_⟩
  · rw [s.evaluator] at hx
    exact hx
  · rw [s.result] at hr
    cases hr

end VectorGraph.Engine
