import Mathlib.Logic.Relation
import VectorGraph.Proofs.Engine.Upkeep
import VectorGraph.Proofs.Results

/-!
What may be done with an engine, and what is true of every state that this leads to.

`Engine.Change` adds to the steps of passes what an application does from outside: open evaluators,
start passes, edit the graph, and drop entries. A `Usage` says when it may do so, so that overlapping
passes and passes one after another are two usages of one engine. Every state that is reached from a
blank engine has a ledger (`Reaches.ledger`).
-/
namespace VectorGraph

namespace Engine

/-- When an application may do what, and which replies the back-end makes. -/
structure Usage where
  replies : Replies
  mayOpen : Engine → Prop
  /-- A pass may be started with a salt. -/
  mayStart : Engine → String → Prop
  mayEdit : Engine → Graph → Prop

/-- The ways in which an engine changes: by a step of a pass, or from outside. -/
inductive Change (u : Usage) (e : Engine) : Engine → Prop where
  | steps {event : Event} {turn : Turn} (step : e.step event = some turn)
      (allowed : event.Allowed u.replies e) : Change u e turn.engine
  | opens {offered : Option Nat} (may : u.mayOpen e) : Change u e (e.addEvaluator offered)
  | starts {evaluator : Nat} {target : Label} {resolution : Json} {salt : String} {turn : Turn}
      (may : u.mayStart e salt) (there : evaluator < e.evaluators.length)
      (started : e.start evaluator target resolution salt = .ok turn) : Change u e turn.engine
  | edits {g : Graph} (may : u.mayEdit e g) : Change u e { e with graph := g }
  | invalidates {evaluator : Nat} {v : Label} (there : evaluator < e.evaluators.length) :
      Change u e (e.invalidate evaluator v).2
  | clears {evaluator : Nat} (there : evaluator < e.evaluators.length) :
      Change u e (e.clearCache evaluator)

/-- An engine in which nothing has happened yet. -/
def blank (settings : Settings) (canRender : Bool) (digest : Digest) : Engine :=
  { settings, canRender, digest }

/-- Any number of changes. -/
abbrev Reaches (u : Usage) : Engine → Engine → Prop := Relation.ReflTransGen (Change u)

variable {u : Usage} {e e' : Engine} {draws : Draws}

theorem blank_ledger (replies : Replies) (settings : Settings) (canRender : Bool) (digest : Digest)
    (draws : Draws) : Ledger replies draws (blank settings canRender digest) where
  books := ⟨fun i c h => by simp [blank] at h, fun i j c d h => by simp [blank] at h,
    fun s cache h => by simp [blank] at h, fun s cache h => by simp [blank] at h⟩
  capacity s cache h := by simp [blank] at h
  stores n v h := by simp [blank] at h
  evaluators k p h := by simp [blank] at h
  passes i c h := by simp [blank] at h
  works i c h := by simp [blank] at h
  past i c h := by simp [blank] at h
  tasks k p h := by simp [blank] at h

/-- What starting a pass does: it is added, with a task for its target. -/
structure Started (e : Engine) (n : Nat) (v : Label) (salt : String) (p : Pass) (e' : Engine) :
    Prop where
  evaluator : p.evaluator = n
  target : p.target = v
  positive : 0 < p.resolution.count
  ids : p.ids = ⟨salt, (e.evaluators.getD n default).counter⟩
  tasks : p.tasks = [(v, .fresh)]
  visited : p.visited = []
  computed : p.computed = []
  result : p.result = none
  acyclic : e.graph.checkAcyclic v = .ok ()
  state : ∃ log, e' = { e with passes := e.passes ++ [p], log := log }

theorem resolutionOf_pos {value : Json} {r : Extent} (h : resolutionOf value = .ok r) : 0 < r.count := by
  unfold resolutionOf at h
  split at h
  · split at h
    · next hn =>
      obtain rfl := Except.ok.inj h
      exact hn
    · cases h
  · obtain rfl := Except.ok.inj h
    decide
  · cases h

theorem started_of_start {evaluator : Nat} {target : Label} {resolution : Json} {salt : String}
    {turn : Turn} (h : e.start evaluator target resolution salt = .ok turn) :
    ∃ p : Pass, resolutionOf resolution = .ok p.resolution ∧ Started e evaluator target salt p turn.engine := by
  unfold start at h
  obtain ⟨r, hr, h⟩ := bind_eq_ok.mp h
  obtain ⟨_, ha, h⟩ := bind_eq_ok.mp h
  obtain rfl := Except.ok.inj h
  exact ⟨_, hr, rfl, rfl, resolutionOf_pos hr, rfl, rfl, rfl, rfl, rfl, ha, _, rfl⟩

namespace Ledger

/-- A pass is added that has asked for nothing but its target. -/
theorem addPass (h : Ledger u.replies draws e) {p : Pass} (hp : p.evaluator < e.evaluators.length)
    (tasks : p.tasks = [(p.target, .fresh)]) (log : List String) :
    Ledger u.replies draws { e with passes := e.passes ++ [p], log := log } ∧
    Grows e { e with passes := e.passes ++ [p], log := log } := by
  have grows : Grows e { e with passes := e.passes ++ [p], log := log } :=
    ⟨rfl, rfl, rfl, fun _ v hv => ⟨v, hv, rfl⟩, .refl _, fun k q hq => ⟨q, getElem?_concat_of_some hq, .refl q⟩⟩
  refine ⟨h.advance grows (h.rekey grows h.books) h.capacity h.stores (fun k q hq => ?_)
    (fun i d hd => .inl ⟨d, hd, .refl d, rfl, rfl⟩) (fun k q hq v y hy => ?_), grows⟩
  · rcases getElem?_concat_cases hq with hq | ⟨-, rfl⟩
    · exact h.evaluators k q hq
    · exact hp
  · rcases getElem?_concat_cases hq with hq | ⟨-, rfl⟩
    · exact .inl ⟨q, hq, .refl q, hy⟩
    · refine .inr ?_
      have fresh : y = .fresh := by
        simp only [Pass.progress?, tasks, List.find?_singleton] at hy
        split at hy
        · exact (Option.some.inj hy).symm
        · cases hy
      rw [fresh]
      trivial

/-- The cache of an evaluator drops entries. -/
theorem drop (h : Ledger u.replies draws e) {n : Nat} (hn : n < e.evaluators.length) {new : Cache}
    (running : new.running = (e.cacheOf n).running) (issued : new.issued = (e.cacheOf n).issued)
    (capacity : new.capacity = (e.cacheOf n).capacity)
    (entries : ∀ x ∈ new.entries, x ∈ (e.cacheOf n).entries) :
    Ledger u.replies draws (e.setCache n new) ∧ Grows e (e.setCache n new) := by
  have hcache := h.cacheOf hn
  exact ⟨h.compute hcache capacity (.refl _) (h.books.shrink hcache running issued entries)
    fun i d hd => .inl ⟨d, hd, .refl d, rfl⟩, .compute (.refl _)⟩

/-- A further evaluator is opened. -/
theorem addEvaluator (h : Ledger u.replies draws e) (offered : Option Nat) :
    Ledger u.replies draws (e.addEvaluator offered) ∧ Grows e (e.addEvaluator offered) := by
  have stay : ∀ (v : Evaluator) (n : Nat) (v' : Evaluator), e.evaluators[n]? = some v' →
      ∃ v'' : Evaluator, (e.evaluators ++ [v])[n]? = some v'' ∧ v''.store = v'.store :=
    fun v n v' hv' => ⟨v', getElem?_concat_of_some hv', rfl⟩
  have lengths : ∀ v : Evaluator, e.evaluators.length ≤ (e.evaluators ++ [v]).length := by simp
  unfold Engine.addEvaluator
  dsimp only
  split
  · next store useful =>
    rw [Option.filter_eq_some_iff] at useful
    -- A cache that does not exist reads as an empty one, which is not useful.
    have hstore : store < e.caches.length := by
      by_contra hge
      simp only [List.getD, List.getElem?_eq_none (Nat.le_of_not_lt hge)] at useful
      exact absurd useful.2 (by decide)
    have grows : Grows e { e with evaluators := e.evaluators ++ [{ store }] } :=
      ⟨rfl, rfl, rfl, stay _, .refl _, fun _ p hp => ⟨p, hp, .refl p⟩⟩
    refine ⟨h.advance grows h.books h.capacity (fun n v hv => ?_)
      (fun k p hp => Nat.lt_of_lt_of_le (h.evaluators k p hp) (lengths _))
      (fun i d hd => .inl ⟨d, hd, .refl d, rfl, rfl⟩) (fun k q hq v y hy => .inl ⟨q, hq, .refl q, hy⟩),
      grows⟩
    rcases getElem?_concat_cases hv with hv | ⟨-, rfl⟩
    · exact h.stores n v hv
    · exact hstore
  · generalize hnew : ({ capacity := e.settings.maxCacheEntries } : Cache) = new
    have grows : Grows e { e with
        caches := e.caches ++ [new], evaluators := e.evaluators ++ [{ store := e.caches.length }] } :=
      ⟨rfl, rfl, rfl, stay _, .refl _, fun _ p hp => ⟨p, hp, .refl p⟩⟩
    refine ⟨h.advance grows ?_ (fun s cache hs => ?_) (fun n v hv => ?_)
      (fun k p hp => Nat.lt_of_lt_of_le (h.evaluators k p hp) (lengths _))
      (fun i d hd => .inl ⟨d, hd, .refl d, rfl, rfl⟩) (fun k q hq v y hy => .inl ⟨q, hq, .refl q, hy⟩),
      grows⟩
    · exact h.books.addCache (by rw [← hnew]) (by rw [← hnew])
    · change (e.caches ++ [new])[s]? = some cache at hs
      rcases getElem?_concat_cases hs with hs | ⟨-, rfl⟩
      · exact h.capacity s cache hs
      · rw [← hnew]
    · simp only [List.length_append, List.length_singleton]
      rcases getElem?_concat_cases hv with hv | ⟨-, rfl⟩
      · exact Nat.lt_succ_of_lt (h.stores n v hv)
      · exact Nat.lt_succ_self _

end Ledger

/-- Every change keeps the ledger. -/
theorem Change.upkeep (m : Change u e e') (h : Ledger u.replies draws e) :
    ∃ draws', Ledger u.replies draws' e' ∧ Grows e e' ∧ Drawn draws e draws' e' := by
  have unrun : ∀ {e' : Engine}, e'.passes = e.passes → e'.computations = e.computations → Unrun e e' := by
    intro e' passes computations
    refine .of_eq (fun k p p' hp hp' => ?_) computations
    rw [passes, hp] at hp'
    obtain rfl := Option.some.inj hp'
    exact ⟨rfl, rfl⟩
  cases m with
  | steps step allowed => exact (move_of_step step allowed).upkeep h
  | opens may =>
    obtain ⟨ledger, grows⟩ := h.addEvaluator _
    refine ⟨draws, ledger, grows, .kept (unrun ?_ ?_)⟩ <;> unfold addEvaluator <;> dsimp only <;> split <;> rfl
  | starts may there started =>
    obtain ⟨p, -, s⟩ := started_of_start started
    obtain ⟨log, state⟩ := s.state
    rw [state]
    obtain ⟨ledger, grows⟩ := h.addPass (s.evaluator ▸ there) (s.target ▸ s.tasks) log
    exact ⟨draws, ledger, grows, .kept (.addPass p log)⟩
  | @edits g may => exact ⟨draws, h.restate g e.log e.requests, (Grows.refl e).restate g e.log e.requests,
    .kept (unrun rfl rfl)⟩
  | @invalidates n v there =>
    obtain ⟨running, issued, capacity, entries⟩ := (e.cacheOf n).invalidate_shrinks e.graph v
    obtain ⟨ledger, grows⟩ := h.drop there running issued capacity entries
    exact ⟨draws, ledger, grows, .kept (unrun rfl rfl)⟩
  | @clears n there =>
    have entries : ∀ x ∈ (e.cacheOf n).clear.entries, x ∈ (e.cacheOf n).entries := by
      intro x hx
      cases hx
    obtain ⟨ledger, grows⟩ := @Ledger.drop u e draws h n there (e.cacheOf n).clear rfl rfl rfl entries
    exact ⟨draws, ledger, grows, .kept (unrun rfl rfl)⟩

/-- Every state reached has a ledger, and tells what earlier ones told. -/
theorem Reaches.ledger (run : Reaches u e e') (h : Ledger u.replies draws e) :
    ∃ draws', Ledger u.replies draws' e' ∧ Grows e e' := by
  induction run with
  | refl => exact ⟨draws, h, .refl e⟩
  | tail _ change ih =>
    obtain ⟨draws', ledger, grows⟩ := ih
    obtain ⟨draws'', ledger', grows', -⟩ := change.upkeep ledger
    exact ⟨draws'', ledger', grows.trans grows'⟩

/-! ## Single changes -/

/-- The engine after an event, or as it was if the event is not possible. -/
def after (e : Engine) (event : Event) : Engine := ((e.step event).map (·.engine)).getD e

/-- The engine after a pass has been started on the first evaluator, if that is possible. -/
def opened (e : Engine) (target : Label) (resolution : Json) (salt : String) : Engine :=
  match e.start 0 target resolution salt with
  | .ok turn => turn.engine
  | .error _ => e

theorem after_reaches {event : Event} (possible : (e.step event).isSome = true)
    (allowed : event.Allowed u.replies e) : Reaches u e (e.after event) := by
  obtain ⟨turn, h⟩ := Option.isSome_iff_exists.mp possible
  have step : Change u e turn.engine := .steps h allowed
  simp only [after, h, Option.map_some, Option.getD_some]
  exact .single step

theorem opened_reaches {target : Label} {resolution : Json} {salt : String} (may : u.mayStart e salt)
    (there : 0 < e.evaluators.length) : Reaches u e (e.opened target resolution salt) := by
  unfold opened
  cases h : e.start 0 target resolution salt with
  | error fault => exact .refl
  | ok turn => exact .single (.starts may there h)

/-- Whether events are possible one after another. -/
def possible : Engine → List Event → Bool
  | _, [] => true
  | e, event :: rest => (e.step event).isSome && possible (e.after event) rest

/-- Events that are possible one after another lead on, if the back-end may reply anything. -/
theorem Reaches.follow (anything : ∀ request reply, u.replies request reply) (events : List Event) :
    ∀ {e' : Engine}, Reaches u e e' → e'.possible events = true → Reaches u e (events.foldl after e') := by
  induction events with
  | nil => exact fun before _ => before
  | cons event rest ih =>
    intro e' before h
    rw [possible, Bool.and_eq_true] at h
    have allowed : event.Allowed u.replies e' := by
      cases event with
      | paint index reply => exact fun _ request _ _ _ => anything request reply
      | _ => trivial
    exact ih (before.trans (after_reaches h.1 allowed)) h.2

end Engine

end VectorGraph
