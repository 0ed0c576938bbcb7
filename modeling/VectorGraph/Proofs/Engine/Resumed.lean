import VectorGraph.Proofs.Engine.Replaced
import VectorGraph.Proofs.Engine.Retained

/-!
One pass after another.

Between passes an engine is at rest (`Engine.AtRest`), and stays so when the graph is edited or entries are dropped. A
pass that comes to a fragment and drops nothing leaves a cache that recalls all that its target depends on
(`Reaches.remembers`). Whatever a cache recalls when a pass is started the pass does not compute
(`Started.resumes`), provided that it drops nothing, as it does if there is room for the rest
(`Started.retaining_of_spare`).
-/
namespace VectorGraph.Engine

variable {e e' e₁ e₂ : Engine} {draws : Draws} {m n : Nat} {p q : Pass} {U : Label → Prop} {F : Label → Fragment}
  {target : Label} {resolution : Extent} {salt : String} {f : Fragment}

/-! ## Engines at rest -/

/-- Nothing goes on, and the caches are in good order. -/
structure AtRest (replies : Replies) (e : Engine) : Prop where
  calm : Calm e
  ledger : ∃ draws, Ledger replies draws e
  tidy : e.AllTidy
  fits : e.AllCaches Cache.Fits

/-- A state in which no step is possible is such a one. -/
theorem Reaches.atRest {u : Usage} {settings : Settings} {canRender : Bool} {digest : Digest}
    (run : Reaches u (blank settings canRender digest) e) (rest : ∀ event, e.step event = none)
    (total : AlwaysReplies u.replies) : AtRest u.replies e ∧ e.settings = settings ∧ e.digest = digest := by
  have nothing := blank_ledger u.replies settings canRender digest fun _ => default
  have none_ : ∀ {P : Cache → Prop}, (blank settings canRender digest).AllCaches P := fun s cache hs => by cases hs
  obtain ⟨draws, ledger, old⟩ := run.ledger nothing
  exact ⟨⟨ledger.calm_of_rest total rest, ⟨draws, ledger⟩, run.tidy nothing none_,
    none_.reaches lasting_fits run nothing⟩, old.settings, old.digest⟩

namespace AtRest

variable {u : Usage} (h : AtRest u.replies e)

include h

/-- The graph may be edited. -/
theorem edit (g : Graph) : AtRest u.replies { e with graph := g } := by
  obtain ⟨draws, ledger⟩ := h.ledger
  exact ⟨h.calm.congr rfl rfl rfl, ⟨draws, ledger.restate g e.log e.requests⟩, h.tidy.congr rfl, h.fits.congr rfl⟩

/-- Entries may be dropped. -/
theorem invalidate (there : n < e.evaluators.length) (v : Label) : AtRest u.replies (e.invalidate n v).2 := by
  obtain ⟨draws, ledger⟩ := h.ledger
  have change : Change u e (e.invalidate n v).2 := .invalidates there
  obtain ⟨draws', ledger', -⟩ := change.upkeep ledger
  exact ⟨h.calm.congr rfl rfl rfl, ⟨draws', ledger'⟩, AllCaches.change h.tidy lasting_tidy change ledger,
    h.fits.change lasting_fits change ledger⟩

/-- No key is stored twice for an evaluator, and no more is stored than the settings allow. -/
theorem cacheOf (there : n < e.evaluators.length) :
    ((e.cacheOf n).entries.map (·.1)).Nodup ∧ (e.cacheOf n).entries.length ≤ e.settings.maxCacheEntries.toNat := by
  obtain ⟨draws, ledger⟩ := h.ledger
  have store := (List.getElem?_eq_some_iff.mp (ledger.cacheOf there)).1
  refine ⟨(h.tidy.cacheOf store).entries, ?_⟩
  rw [← ledger.capacity _ _ (ledger.cacheOf there)]
  exact h.fits.getD store

end AtRest

/-! ## What a pass leaves to the next one -/

/-- Nothing goes on, and all that the target depends on is recalled. -/
structure Remembers (replies : Replies) (e : Engine) (n : Nat) (target : Label) (resolution : Extent)
    (F : Label → Fragment) : Prop where
  rest : AtRest replies e
  there : n < e.evaluators.length
  recalls : e.Recalls resolution target (e.cacheOf n).entries (fun _ => True) F

/-- The pass `q` for the target has come to the fragment `f`. It was started in `e`, where the cache recalled the nodes
`U`. Of what the target depends on it has computed other nodes only, each of them once, while those of `U` have come
to what was recalled. For whatever it has not computed something was stored. -/
structure Resumes (e : Engine) (n : Nat) (target : Label) (resolution : Extent) (U : Label → Prop)
    (F : Label → Fragment) (q : Pass) (f : Fragment) : Prop where
  last : q.result? target = some (.ok f)
  once : q.computed.Nodup
  visited : ∀ v, v ∈ q.visited ↔ e.graph.Upstream v target
  others : ∀ v ∈ q.computed, ¬ U v ∧ e.graph.Upstream v target
  same : ∀ v, e.graph.Upstream v target → U v → q.result? v = some (.ok (F v))
  stored : ∀ v, e.graph.Upstream v target → v ∉ q.computed → ∃ node inputs f, e.graph.node? v = some node ∧
    (e.keyFor resolution node inputs, f) ∈ (e.cacheOf n).entries

namespace Started

variable {u : Usage} (s : Started e n target salt p e') (rest : AtRest u.replies e) (there : n < e.evaluators.length)

include s rest there

/-- A pass that comes to a fragment and drops nothing leaves a cache that recalls all that its target depends on. -/
theorem remembers (run : Retaining u.replies n m e' e₁) (pass : e₁.passes[e.passes.length]? = some q)
    (result : q.result = some (.ok f)) : Remembers u.replies e₁ n target p.resolution (yielded q) ∧ Grows e e₁ ∧
      e₁.graph = e.graph ∧ (∀ v, e₁.graph.Upstream v target → q.result? v = some (.ok (yielded q v))) ∧
      yielded q target = f := by
  obtain ⟨draws, ledger⟩ := rest.ledger
  have solo₀ := rest.calm.solo ledger there s
  have kept₀ := rest.calm.kept s
  obtain ⟨log, state⟩ := s.state
  have opened : Grows e e' := by
    rw [state]
    exact (ledger.addPass (s.evaluator ▸ there) (s.target ▸ s.tasks) log).2
  have fits : e₁.AllCaches Cache.Fits :=
    solo₀.allCaches_steps lasting_fits (rest.fits.congr (by rw [state])) run.steps
  rw [← s.evaluator] at run
  obtain ⟨draws', q', solo, ⟨tidy, kept⟩, grows, graph⟩ :=
    solo₀.kept_retaining (rest.tidy.congr (by rw [state])) kept₀ run
  obtain rfl := Option.some.inj (pass.symm.trans solo.underway.pass)
  have later := solo₀.later grows solo.underway
  have evaluator : q.evaluator = n := later.evaluator.trans s.evaluator
  have target' : q.target = target := later.target.trans s.target
  have done : q.result? q.target = some (.ok f) := (solo.told _ result).1
  have closed : q.result ≠ none := by
    rw [result]
    exact Option.some_ne_none _
  -- The pass is closed, so the engine is at rest again, with all that the pass has finished in the cache.
  have recalls := solo.recalls kept done
  rw [later.resolution, target', evaluator] at recalls
  refine ⟨⟨⟨solo.calm closed, ⟨draws', solo.ledger⟩, tidy, fits⟩, (opened.trans grows).evaluators_lt there, recalls⟩,
    opened.trans grows, graph.trans (by rw [state]), fun v up => ?_, target' ▸ yielded_eq done⟩
  obtain ⟨g, hg⟩ := solo.result_of_upstream done (target'.symm ▸ up)
  rw [hg, yielded_eq hg]

section Recalling

variable (recalls : e.Recalls p.resolution target (e.cacheOf n).entries U F)

include recalls

/-- At the outset of a pass all that was recalled still is. -/
theorem serving : ∃ draws, Solo u.replies draws e.passes.length e.computations.length (e.cacheOf n).entries p e' ∧
    e'.Serving e.computations.length (e.cacheOf n).entries p U F := by
  obtain ⟨draws, ledger⟩ := rest.ledger
  have kept := rest.calm.kept s
  have served : e'.Served e.computations.length p U := s.served
  refine ⟨draws, rest.calm.solo ledger there s, ?_⟩
  obtain ⟨log, state⟩ := s.state
  refine ⟨rest.tidy.congr (by rw [state]), kept, ?_, served⟩
  rw [s.target]
  exact recalls.congr (by rw [state]) (by rw [state])

/-- A pass drops nothing if there is room for all that is not recalled. -/
theorem retaining_of_spare (others : List Label) (left : ∀ v, e.graph.Upstream v target → ¬ U v → v ∈ others)
    (spare : others = [] ∨ ((e.cacheOf n).entries.length + others.length : Int) ≤ e.settings.maxCacheEntries)
    (run : Steps u.replies m e' e₂) : Retaining u.replies n m e' e₂ := by
  obtain ⟨draws, solo, serving⟩ := s.serving rest there recalls
  obtain ⟨log, state⟩ := s.state
  rw [← s.evaluator]
  refine solo.retaining_of_spare serving (rest.cacheOf there).1 others ?_ ?_ run
  · rw [state, s.target]
    exact left
  · rw [state]
    exact spare

/-- A pass that drops nothing goes on from what was recalled. -/
theorem resumes (run : Retaining u.replies n m e' e₂) (pass : e₂.passes[e.passes.length]? = some q)
    (result : q.result = some (.ok f)) : Resumes e n target p.resolution U F q f := by
  obtain ⟨draws, solo₀, serving₀⟩ := s.serving rest there recalls
  have logged₀ := s.logged
  have distinct := (rest.cacheOf there).1
  obtain ⟨log, state⟩ := s.state
  rw [← s.evaluator] at run
  obtain ⟨draws', q', solo, serving, grows, graph'⟩ := solo₀.serving_retaining serving₀ distinct run
  obtain rfl := Option.some.inj (pass.symm.trans solo.underway.pass)
  have logged := solo₀.logged_steps logged₀ run.steps pass
  have later := solo₀.later grows solo.underway
  have target' : q.target = target := later.target.trans s.target
  have graph : e₂.graph = e.graph := by rw [graph', state]
  have digest : e₂.digest = e.digest := by rw [grows.digest, state]
  have closed : q.result ≠ none := by
    rw [result]
    exact Option.some_ne_none _
  have done : q.result? q.target = some (.ok f) := (solo.told _ result).1
  constructor
  case last => exact target' ▸ done
  case once => exact logged.once
  all_goals rw [← graph, ← target']
  case visited => exact fun v => solo.visited_of_ok result
  case others =>
    exact fun v computed => ⟨serving.served.computed v computed, solo.upstream_of_computed closed logged computed⟩
  case same =>
    -- What was recalled is served from its entry, or computed from the very inputs that it was computed from before.
    intro v up recalled
    obtain ⟨g, hg⟩ := solo.result_of_upstream done up
    have same := solo.recalled distinct serving.recalls (fun i c _ low hc _ => serving.served.idle i c low hc) recalled hg
    rw [hg, same]
  case stored =>
    intro v up uncomputed
    obtain ⟨g, hg⟩ := solo.result_of_upstream done up
    obtain ⟨node, known, stored⟩ := (solo.computed_or_stored closed logged hg).resolve_left uncomputed
    refine ⟨node, e₂.inputsBy (yielded q) v, g, known, ?_⟩
    rw [keyFor, digest, later.resolution] at stored
    exact stored

end Recalling

/-- A pass drops nothing if there is room for the target and all nodes that it depends on. -/
theorem retaining_of_room
    (room : ((e.cacheOf n).entries.length + (e.graph.ancestors target).length + 1 : Int) ≤ e.settings.maxCacheEntries)
    (run : Steps u.replies m e' e₂) : Retaining u.replies n m e' e₂ := by
  have nothing : e.Recalls p.resolution target (e.cacheOf n).entries (fun _ => False) fun _ => default :=
    ⟨fun _ _ _ none_ => none_, fun _ none_ => none_.elim⟩
  refine s.retaining_of_spare rest there nothing (target :: e.graph.ancestors target)
    (fun v up _ => List.mem_cons.mpr (Graph.upstream_iff.mp up)) (.inr ?_) run
  rw [List.length_cons]
  omega

end Started

/-- A pass that is started has the resolution that it is asked for. -/
theorem started_at {resolution : Json} {turn : Turn} {r : Extent} (started : e.start n target resolution salt = .ok turn)
    (positive : resolutionOf resolution = .ok r) : ∃ p, p.resolution = r ∧ Started e n target salt p turn.engine := by
  obtain ⟨p, hr, s⟩ := started_of_start started
  exact ⟨p, Except.ok.inj (hr.symm.trans positive), s⟩

/-- What is left by a pass that is started where nothing else goes on, comes to a fragment and drops nothing. -/
theorem Reaches.remembers {u : Usage} {settings : Settings} {canRender : Bool} {digest : Digest} {resolution : Json}
    {turn : Turn} (run : Reaches u (blank settings canRender digest) e) (rest : ∀ event, e.step event = none)
    (there : n < e.evaluators.length) (total : AlwaysReplies u.replies)
    (started : e.start n target resolution salt = .ok turn) (first : Retaining u.replies n m turn.engine e₁)
    (pass : e₁.passes[e.passes.length]? = some p) (result : p.result = some (.ok f)) :
    ∃ r, resolutionOf resolution = .ok r ∧ Remembers u.replies e₁ n target r (yielded p) ∧
      e₁.digest = digest ∧ e₁.graph = e.graph ∧
      (∀ v, e₁.graph.Upstream v target → p.result? v = some (.ok (yielded p v))) ∧ yielded p target = f := by
  obtain ⟨p₀, positive, s⟩ := started_of_start started
  obtain ⟨rest₀, -, told⟩ := run.atRest rest total
  obtain ⟨memory, grows, graph, results, last⟩ := s.remembers rest₀ there first pass result
  exact ⟨_, positive, memory, grows.digest.trans told, graph, results, last⟩

/-- Events that are possible one after another make a pass of the first evaluator that drops nothing, if the back-end
may reply anything and there is room. -/
theorem AtRest.follow {u : Usage} (rest : AtRest u.replies e) (anything : ∀ request reply, u.replies request reply)
    (there : 0 < e.evaluators.length) (target : Label) {resolution : Json} {r : Extent} (salt : String)
    (positive : resolutionOf resolution = .ok r) (acyclic : e.graph.checkAcyclic target = .ok ())
    (room : ((e.cacheOf 0).entries.length + (e.graph.ancestors target).length + 1 : Int) ≤ e.settings.maxCacheEntries)
    (events : List Event) (able : (e.opened target resolution salt).possible events = true) :
    ∃ turn, e.start 0 target resolution salt = .ok turn ∧
      Retaining u.replies 0 (0 + events.length) turn.engine (events.foldl after (e.opened target resolution salt)) := by
  obtain ⟨turn, started⟩ := start_ok (n := 0) salt positive acyclic
  have opened : e.opened target resolution salt = turn.engine := by rw [Engine.opened, started]
  rw [opened] at able ⊢
  obtain ⟨p, -, s⟩ := started_of_start started
  exact ⟨turn, started, s.retaining_of_room rest there room ((Steps.none _).follow anything events able)⟩

/-- The fragment that a pass has come to. -/
def yield? (e : Engine) (k : Nat) : Option Fragment := (e.passes[k]?).bind fun p => p.result.bind Except.toOption

theorem exists_of_yield? {k : Nat} (h : (e.yield? k).isSome = true) :
    ∃ p f, e.passes[k]? = some p ∧ p.result = some (.ok f) := by
  obtain ⟨f, hf⟩ := Option.isSome_iff_exists.mp h
  obtain ⟨p, pass, result⟩ := Option.bind_eq_some_iff.mp hf
  obtain ⟨r, closed, ok⟩ := Option.bind_eq_some_iff.mp result
  cases r with
  | error failure => cases ok
  | ok g => exact ⟨p, g, pass, closed⟩

/-! ## A colour that is moved -/

/-- An engine whose graph puts out a colour that is moved. -/
def moved : Engine :=
  { (blank {} false Studio.fullDigest).addEvaluator none with
    graph :=
      { nodes := [⟨.text "o", .output, []⟩, ⟨.text "t", .translate, []⟩, ⟨.text "c", .color, []⟩]
        edges :=
          [⟨.text "c", .text "out", .text "t", .text "in"⟩, ⟨.text "t", .text "out", .text "o", .text "in"⟩] } }

/-- The events of a pass for the output, one after another. -/
def movedEvents : List Event :=
  [.begin 0 (.text "o"), .launch 0 (.text "o"), .begin 0 (.text "t"), .launch 0 (.text "t"), .begin 0 (.text "c"),
    .run 0, .deliver 0 (.text "c"), .proceed 0 (.text "t"), .run 1, .deliver 0 (.text "t"), .proceed 0 (.text "o"),
    .run 2, .deliver 0 (.text "o"), .close 0]

/-- The engine when the pass for the output is closed. -/
def movedEnd : Engine := movedEvents.foldl after (moved.opened (.text "o") (.whole 8) "s")

/-- The events of a second pass, which takes the colour from the cache. -/
def movedAgain : List Event :=
  [.begin 1 (.text "o"), .launch 1 (.text "o"), .begin 1 (.text "t"), .launch 1 (.text "t"), .begin 1 (.text "c"),
    .proceed 1 (.text "t"), .run 3, .deliver 1 (.text "t"), .proceed 1 (.text "o"), .run 4, .deliver 1 (.text "o"),
    .close 1]

/-- Whatever is possible may be done, and the back-end may reply anything. -/
def anything : Usage := ⟨fun _ _ => True, fun _ => True, fun _ _ => True, fun _ _ => True⟩

theorem anything_replies : AlwaysReplies anything.replies := fun _ => ⟨.error .notConfigured, trivial⟩

theorem moved_reached : Reaches anything (blank {} false Studio.fullDigest) moved :=
  (Relation.ReflTransGen.single (.opens trivial)).tail (.edits trivial)

theorem moved_still (event : Event) : moved.step event = none := by cases event <;> rfl

/-- The first pass drops nothing and comes to a fragment. -/
theorem moved_first : ∃ turn p f, moved.start 0 (.text "o") (.whole 8) "s" = .ok turn ∧
    Retaining anything.replies 0 (0 + movedEvents.length) turn.engine movedEnd ∧
    movedEnd.passes[0]? = some p ∧ p.result = some (.ok f) ∧ AtRest anything.replies movedEnd ∧
    movedEnd.graph = moved.graph := by
  obtain ⟨rest, -⟩ := moved_reached.atRest moved_still anything_replies
  have there : 0 < moved.evaluators.length := by decide
  obtain ⟨turn, started, first⟩ := rest.follow (fun _ _ => trivial) there (.text "o") "s"
    (show resolutionOf (.whole 8) = .ok (.pixels 8) from rfl) (by with_unfolding_all rfl) (by decide +kernel)
    movedEvents (by decide +kernel)
  obtain ⟨p, f, pass, result⟩ := exists_of_yield? (e := movedEnd) (k := 0) (by decide +kernel)
  obtain ⟨_, -, memory, -, graph, -⟩ :=
    moved_reached.remembers moved_still there anything_replies started first pass result
  exact ⟨turn, p, f, started, first, pass, result, memory.rest, graph⟩

end VectorGraph.Engine
