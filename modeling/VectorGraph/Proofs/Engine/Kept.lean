import VectorGraph.Proofs.Cache.Tidy
import VectorGraph.Proofs.Engine.Meaning

/-!
What the cache of a pass keeps.

A move leaves the caches alone, passes a request on to one of them, or ends a computation in one (`Engine.CacheStep`).
So every cache stays in good order (`Reaches.tidy`). While a pass runs alone and there is room in its cache, no entry
is dropped and each of its computations leaves one (`Engine.Kept`), and there is room as long as the cache can hold
an entry for every node that the target depends on (`Solo.room`).
-/
namespace VectorGraph

/-- Whether a computation has ended. -/
def Computation.hasEnded (c : Computation) : Bool :=
  match c.stage with
  | .ended _ => true
  | _ => false

theorem Computation.hasEnded_iff {c : Computation} : c.hasEnded = true ↔ ∃ r, c.stage = .ended r := by
  unfold hasEnded
  cases c.stage <;> simp

theorem Computation.Open.hasEnded {c : Computation} (h : c.Open) : c.hasEnded = false := by
  rw [← Bool.not_eq_true, hasEnded_iff]
  rintro ⟨r, hr⟩
  exact h r hr

namespace AllLater

variable {cs ds : List Computation}

/-- No fewer have ended later on. -/
theorem countP_le (h : AllLater cs ds) : cs.countP (·.hasEnded) ≤ ds.countP (·.hasEnded) := by
  induction cs generalizing ds with
  | nil => exact Nat.zero_le _
  | cons c cs ih =>
    obtain ⟨d, hd, hcd⟩ := h 0 c rfl
    cases ds with
    | nil => cases hd
    | cons d' ds =>
      obtain rfl := Option.some.inj hd
      have rest := ih fun i c hc => h (i + 1) c hc
      have first : c.hasEnded = true → d'.hasEnded = true := by
        rw [Computation.hasEnded_iff, Computation.hasEnded_iff]
        rintro ⟨r, hr⟩
        exact ⟨r, hcd.ended r hr⟩
      rw [List.countP_cons, List.countP_cons]
      split
      · next ended => rw [if_pos (first ended)]; omega
      · omega

end AllLater

/-- One more has ended when one ends. -/
theorem Computation.Open.countP_set {cs : List Computation} {i : Nat} {c d : Computation} (isOpen : c.Open)
    (hc : cs[i]? = some c) (ended : d.hasEnded = true) :
    (cs.set i d).countP (·.hasEnded) = cs.countP (·.hasEnded) + 1 := by
  obtain ⟨there, same⟩ := List.getElem?_eq_some_iff.mp hc
  rw [List.countP_set there, same, isOpen.hasEnded, ended]
  rfl

namespace Engine

variable {e e' : Engine} {replies : Replies} {draws draws' : Draws} {k base : Nat}
  {stock : List (CacheKey × Fragment)} {p p' : Pass}

/-! ## What a move does with the caches -/

/-- What a move does with the caches, and what that has to do with the computations. -/
inductive CacheStep (e e' : Engine) : Prop where
  /-- None is started, and none has ended. -/
  | same (caches : e'.caches = e.caches)
      (all : ∀ (i : Nat) (d : Computation), e'.computations[i]? = some d →
        ∃ c : Computation, e.computations[i]? = some c ∧ ∀ r, d.stage = .ended r → c.stage = .ended r)
  /-- A pass asks for a key. A computation is started only where nothing is stored under it. -/
  | asks {k : Nat} {p : Pass} {key : CacheKey} (pass : e.passes[k]? = some p)
      (caches : e'.caches = e.caches.set (e.storeOf p.evaluator) ((e.cacheOf p.evaluator).request key).2)
      (all : ∀ (i : Nat) (d : Computation), e'.computations[i]? = some d →
        (∃ c : Computation, e.computations[i]? = some c ∧ d.stage = c.stage) ∨
        d.stage = .queued ∧ d.pass = k ∧ (e.cacheOf p.evaluator).find? key = none ∧
          key = e.keyFor p.resolution d.node d.inputs)
  /-- A computation ends. -/
  | ends {i : Nat} {c : Computation} {result : Except Failure Fragment}
      (computation : e.computations[i]? = some c) (isOpen : c.Open)
      (caches : e'.caches = e.caches.set c.store ((e.caches.getD c.store default).settle c.ticket result).2)
      (computations : e'.computations = e.computations.set i
        { c with stage := .ended ((e.caches.getD c.store default).settle c.ticket result).1 })

namespace CacheStep

/-- Nothing happens to the computations either. -/
theorem of_eq (caches : e'.caches = e.caches) (computations : e'.computations = e.computations) :
    CacheStep e e' :=
  .same caches fun _ d hd => ⟨d, computations ▸ hd, fun _ hr => hr⟩

/-- A computation that is new is queued, for a key under which nothing is stored. -/
theorem of_new (step : CacheStep e e') {i : Nat} {d : Computation} (old : e.computations[i]? = none)
    (new : e'.computations[i]? = some d) : d.stage = .queued ∧ ∃ q, e.passes[d.pass]? = some q ∧
      (e.cacheOf q.evaluator).find? (e.keyFor q.resolution d.node d.inputs) = none := by
  cases step with
  | same caches all =>
    obtain ⟨c, hc, -⟩ := all i d new
    rw [old] at hc
    cases hc
  | asks pass caches all =>
    rcases all i d new with ⟨c, hc, -⟩ | ⟨queued, rfl, missing, rfl⟩
    · rw [old] at hc
      cases hc
    · exact ⟨queued, _, pass, missing⟩
  | ends computation isOpen caches computations =>
    rw [computations] at new
    have long := (List.getElem?_eq_some_iff.mp new).1
    rw [List.length_set] at long
    exact absurd (List.getElem?_eq_none_iff.mp old) (Nat.not_le.mpr long)

end CacheStep

theorem Looks.cacheStep {q : Pass} {node : Node} {inputs : Inputs} (looks : Looks e k q node inputs e')
    (hp : e.passes[k]? = some p) (evaluator : q.evaluator = p.evaluator) (resolution : q.resolution = p.resolution) :
    CacheStep e e' := by
  have asks := @CacheStep.asks e e' k p (e.keyFor p.resolution node inputs)
  cases looks with
  | found entry =>
    rw [evaluator, resolution] at entry
    refine asks hp ?_ fun i d hd => .inl ⟨d, hd, rfl⟩
    rw [Cache.request_found entry, evaluator, resolution]
    rfl
  | joined missing running shared =>
    rw [evaluator, resolution] at missing running
    refine asks hp ?_ fun i d hd => .inl ?_
    · rw [Cache.request_joined missing running, evaluator]
      rfl
    · dsimp only at hd
      rw [List.getElem?_map] at hd
      obtain ⟨c, hc, rfl⟩ := Option.map_eq_some_iff.mp hd
      exact ⟨c, hc, by split <;> rfl⟩
  | started missing idle =>
    rw [evaluator, resolution] at missing idle
    refine asks hp ?_ fun i d hd => ?_
    · rw [Cache.request_started missing idle, evaluator, resolution]
      rfl
    · dsimp only at hd
      rcases getElem?_concat_cases hd with hd | ⟨-, rfl⟩
      · exact .inl ⟨d, hd, rfl⟩
      · exact .inr ⟨rfl, rfl, missing, rfl⟩

theorem Continues.cacheStep {q : Pass} {v : Label} {kind : Kind} {inputs : List (Label × Label)}
    (continued : Continues e k q v kind inputs e') (hp : e.passes[k]? = some p)
    (evaluator : q.evaluator = p.evaluator) (resolution : q.resolution = p.resolution) : CacheStep e e' := by
  cases continued with
  | fails gathered => exact .of_eq rfl rfl
  | misses gathered missing => exact .of_eq rfl rfl
  | looks gathered complete looked => exact looked.cacheStep hp evaluator resolution
  | awaits oneByOne split passed unknown => exact .of_eq rfl rfl

theorem Move.cacheStep (ledger : Ledger replies draws e) (m : Move replies e e') : CacheStep e e' := by
  cases m with
  | begins pass fresh known continued => exact continued.cacheStep pass rfl rfl
  | proceeds pass gathering ready continued =>
    exact (ledger.goesOn pass gathering continued).cacheStep pass rfl rfl
  | @runsOn j c p request resume lines computation pass queued work =>
    refine .same rfl fun i d hd => ?_
    rcases getElem?_set_cases hd with ⟨rfl, rfl⟩ | ⟨-, hd⟩
    · exact ⟨c, computation, nofun⟩
    · exact ⟨d, hd, fun _ hr => hr⟩
  | runsOut computation pass queued yields =>
    exact .ends computation (Computation.open_of_queued queued) rfl rfl
  | replies computation painted allowed =>
    exact .ends computation (Computation.open_of_painting painted) rfl rfl
  | _ => exact .of_eq rfl rfl

/-! ## Good order -/

/-- What is true of a cache whatever happens to it, be it that it drops entries. -/
structure Lasting (P : Cache → Prop) : Prop where
  blank : ∀ c : Cache, c.entries = [] → c.running = [] → P c
  request : ∀ (c : Cache) (key : CacheKey), P c → P (c.request key).2
  settle : ∀ (c : Cache) (ticket : Nat) (result : Except Failure Fragment), P c → P (c.settle ticket result).2
  drop : ∀ c c' : Cache, P c → c'.running = c.running → c'.issued = c.issued → c'.capacity = c.capacity →
    c'.entries.Sublist c.entries → P c'

theorem lasting_tidy : Lasting Cache.Tidy where
  blank _ entries idle := .of_blank entries idle
  request _ key h := h.request key
  settle _ ticket result h := h.settle ticket result
  drop _ _ h running issued _ entries := h.shrink running issued entries

theorem lasting_fits : Lasting Cache.Fits where
  blank c entries _ := by simp [Cache.Fits, entries]
  request _ key h := h.request key
  settle _ ticket result h := h.settle ticket result
  drop _ _ h _ _ capacity entries := h.shrink capacity entries.length_le

/-- Every cache is as `P` has it. -/
def AllCaches (P : Cache → Prop) (e : Engine) : Prop := ∀ (s : Nat) (cache : Cache), e.caches[s]? = some cache → P cache

namespace AllCaches

variable {P : Cache → Prop}

theorem congr (h : e.AllCaches P) (caches : e'.caches = e.caches) : e'.AllCaches P := fun s cache hs =>
  h s cache (caches ▸ hs)

/-- One cache is replaced. -/
theorem set (h : e.AllCaches P) {s : Nat} {new : Cache} (caches : e'.caches = e.caches.set s new)
    (there : s < e.caches.length → P new) : e'.AllCaches P := by
  intro t cache ht
  rw [caches] at ht
  have low := (List.getElem?_eq_some_iff.mp ht).1
  rw [List.length_set] at low
  rcases getElem?_set_cases ht with ⟨rfl, rfl⟩ | ⟨-, ht⟩
  · exact there low
  · exact h t cache ht

theorem getD (h : e.AllCaches P) {s : Nat} (there : s < e.caches.length) : P (e.caches.getD s default) := by
  refine h s _ ?_
  rw [List.getD_eq_getElem?_getD, List.getElem?_eq_getElem there]
  rfl

/-- Whatever a move does with the caches, what lasts is true of them. -/
theorem step (h : e.AllCaches P) (lasts : Lasting P) (step : CacheStep e e') : e'.AllCaches P := by
  cases step with
  | same caches all => exact h.congr caches
  | asks pass caches all => exact h.set caches fun there => lasts.request _ _ (h.getD there)
  | ends computation isOpen caches computations => exact h.set caches fun there => lasts.settle _ _ _ (h.getD there)

theorem change (h : e.AllCaches P) (lasts : Lasting P) {u : Usage} (change : Change u e e')
    (ledger : Ledger u.replies draws e) : e'.AllCaches P := by
  cases change with
  | steps step allowed => exact h.step lasts ((move_of_step step allowed).cacheStep ledger)
  | opens may =>
    unfold addEvaluator
    dsimp only
    split
    · exact h.congr rfl
    · intro s cache hs
      rcases getElem?_concat_cases hs with hs | ⟨-, rfl⟩
      · exact h s cache hs
      · exact lasts.blank _ rfl rfl
  | starts may there started =>
    obtain ⟨p, -, s⟩ := started_of_start started
    obtain ⟨log, state⟩ := s.state
    rw [state]
    exact h.congr rfl
  | edits may => exact h.congr rfl
  | @invalidates n v there =>
    refine h.set rfl fun there => ?_
    change P ((e.cacheOf n).invalidate e.graph v).2
    rw [Cache.invalidate_snd]
    exact lasts.drop _ _ (h.getD there) rfl rfl rfl List.filter_sublist
  | @clears n there =>
    exact h.set rfl fun there => lasts.drop _ _ (h.getD there) rfl rfl rfl (List.nil_sublist _)

/-- What lasts is true of all caches of every state that is reached. -/
theorem reaches (h : e.AllCaches P) (lasts : Lasting P) {u : Usage} (run : Reaches u e e')
    (ledger : Ledger u.replies draws e) : e'.AllCaches P := by
  induction run with
  | refl => exact h
  | tail run change ih =>
    obtain ⟨draws', ledger', -⟩ := Reaches.ledger run ledger
    exact ih.change lasts change ledger'

end AllCaches

/-- Every cache is in good order. -/
def AllTidy (e : Engine) : Prop := ∀ (s : Nat) (cache : Cache), e.caches[s]? = some cache → cache.Tidy

theorem AllTidy.congr (h : e.AllTidy) (caches : e'.caches = e.caches) : e'.AllTidy := AllCaches.congr h caches

theorem AllTidy.cacheOf (h : e.AllTidy) {n : Nat} (there : e.storeOf n < e.caches.length) : (e.cacheOf n).Tidy :=
  AllCaches.getD h there

theorem CacheStep.tidy (h : CacheStep e e') (tidy : e.AllTidy) : e'.AllTidy := AllCaches.step tidy lasting_tidy h

/-- In every state all caches are in good order. -/
theorem Reaches.tidy {u : Usage} (run : Reaches u e e') (ledger : Ledger u.replies draws e) (tidy : e.AllTidy) :
    e'.AllTidy := AllCaches.reaches tidy lasting_tidy run ledger

/-! ## What is kept while a pass runs alone -/

/-- No entry has been dropped since the outset, when the cache of the pass held `stock`, and every computation of the
pass that has ended with a fragment has left one. -/
structure Kept (e : Engine) (base : Nat) (stock : List (CacheKey × Fragment)) (p : Pass) : Prop where
  old : ∀ x ∈ stock, x ∈ (e.cacheOf p.evaluator).entries
  own : ∀ (i : Nat) (c : Computation) (f : Fragment), base ≤ i → e.computations[i]? = some c →
    c.stage = .ended (.ok f) → (e.keyOf c, f) ∈ (e.cacheOf p.evaluator).entries
  count : (e.cacheOf p.evaluator).entries.length + base ≤ stock.length + e.computations.countP (·.hasEnded)

namespace Solo

/-- The cache of the pass is in the list of caches. -/
theorem store_lt (h : Solo replies draws k base stock p e) : e.storeOf p.evaluator < e.caches.length :=
  (List.getElem?_eq_some_iff.mp (h.ledger.cacheOf (h.ledger.evaluators k p h.underway.pass))).1

end Solo

/-! ### One move -/

/-- What a move of the pass `p` does with the entries of its cache. -/
inductive StoreStep (e : Engine) (p : Pass) (e' : Engine) (p' : Pass) : Prop where
  /-- They stay, in some order, and no computation ends with a fragment. -/
  | still (perm : (e'.cacheOf p'.evaluator).entries.Perm (e.cacheOf p.evaluator).entries)
      (before : ∀ (i : Nat) (d : Computation) (f : Fragment), e'.computations[i]? = some d →
        d.stage = .ended (.ok f) → ∃ c : Computation, e.computations[i]? = some c ∧ c.stage = .ended (.ok f))
  /-- A computation of the pass yields a fragment that is to be stored. -/
  | yields {j : Nat} {c : Computation} {f : Fragment} (computation : e.computations[j]? = some c) (isOpen : c.Open)
      (store : c.store = e.storeOf p.evaluator)
      (running : (c.ticket, e.keyOf c) ∈ (e.cacheOf p.evaluator).running)
      (cache : e'.cacheOf p'.evaluator = ((e.cacheOf p.evaluator).settle c.ticket (.ok f)).2)
      (computations : e'.computations = e.computations.set j
        { c with stage := .ended ((e.cacheOf p.evaluator).settle c.ticket (.ok f)).1 })

namespace SoloMove

variable (h : SoloMove replies k base stock draws p e draws' p' e')

include h

theorem storeOf : e'.storeOf p'.evaluator = e.storeOf p.evaluator := by
  rw [h.later.evaluator, h.grows.storeOf (h.before.ledger.evaluators k p h.before.underway.pass)]

/-- The cache of the pass after a move that replaces a cache. -/
theorem cacheOf_set {s : Nat} {new : Cache} (caches : e'.caches = e.caches.set s new) :
    e'.cacheOf p'.evaluator = if s = e.storeOf p.evaluator then new else e.cacheOf p.evaluator := by
  rw [Engine.cacheOf, h.storeOf, caches, getD_set h.before.store_lt]
  rfl

/-- The key of a computation does not change. -/
theorem keyOf {i : Nat} {c d : Computation} (hc : e.computations[i]? = some c) (hd : e'.computations[i]? = some d) :
    e'.keyOf d = e.keyOf c := by
  obtain ⟨d', hd', later⟩ := h.grows.computations i c hc
  obtain rfl := Option.some.inj (hd.symm.trans hd')
  obtain ⟨q, hq⟩ := h.before.ledger.passes i c hc
  exact h.grows.keyOf hq later

/-- The entries stay where no computation ends with a fragment; otherwise it is one of the pass that ends so. -/
theorem storeStep : StoreStep e p e' p' := by
  cases h.move.cacheStep h.before.ledger with
  | same caches all =>
    refine .still (.of_eq ?_) fun i d f hd stage => ?_
    · rw [Engine.cacheOf, caches, h.storeOf]
      rfl
    · obtain ⟨c, hc, ended⟩ := all i d hd
      exact ⟨c, hc, ended _ stage⟩
  | asks pass caches all =>
    refine .still ?_ fun i d f hd stage => ?_
    · rw [h.cacheOf_set caches]
      split
      · next same =>
        rw [Engine.cacheOf, same]
        exact Cache.request_perm ..
      · exact .refl _
    · rcases all i d hd with ⟨c, hc, same⟩ | ⟨queued, -⟩
      · exact ⟨c, hc, same ▸ stage⟩
      · rw [queued] at stage
        cases stage
  | @ends j c result computation isOpen caches computations =>
    obtain ⟨-, store⟩ := h.before.of_open computation isOpen
    have mine : e.caches.getD c.store default = e.cacheOf p.evaluator := by
      rw [store]
      rfl
    -- The cache is that of the pass. It takes a fragment in, and a failure only ends the computation.
    rw [mine] at caches computations
    have cache := h.cacheOf_set caches
    rw [if_pos store] at cache
    cases result with
    | ok f =>
      have there := h.before.ledger.cacheOf (h.before.ledger.evaluators k p h.before.underway.pass)
      have running : (c.ticket, e.keyOf c) ∈ (e.cacheOf p.evaluator).running :=
        (h.before.ledger.books.running _ _ there _ _).mpr ⟨j, c, computation, store, rfl, isOpen, rfl⟩
      exact .yields computation isOpen store running cache computations
    | error failure =>
      rw [Cache.settle_failed] at cache computations
      refine .still (.of_eq (by rw [cache])) fun i d f hd stage => ?_
      rw [computations] at hd
      rcases getElem?_set_cases hd with ⟨rfl, rfl⟩ | ⟨-, hd⟩
      · cases stage
      · exact ⟨d, hd, stage⟩

/-- Where the entries stay and none has ended with a fragment, all is as before. -/
theorem kept_of_perm (kept : e.Kept base stock p)
    (perm : (e'.cacheOf p'.evaluator).entries.Perm (e.cacheOf p.evaluator).entries)
    (before : ∀ (i : Nat) (d : Computation) (f : Fragment), e'.computations[i]? = some d → d.stage = .ended (.ok f) →
      ∃ c : Computation, e.computations[i]? = some c ∧ c.stage = .ended (.ok f)) : e'.Kept base stock p' := by
  refine ⟨fun x hx => perm.mem_iff.mpr (kept.old x hx), fun i d f low hd stage => ?_, ?_⟩
  · obtain ⟨c, hc, ended⟩ := before i d f hd stage
    rw [h.keyOf hc hd]
    exact perm.mem_iff.mpr (kept.own i c f low hc ended)
  · have count := kept.count
    have more := h.grows.computations.countP_le
    rw [perm.length_eq]
    omega

variable {j : Nat} {c : Computation}

/-- A computation that ends with a fragment leaves an entry, and drops none if there is room for it. -/
theorem kept_of_yielded (tidy : e.AllTidy) (kept : e.Kept base stock p) {f : Fragment}
    (room : ((e.cacheOf p.evaluator).entries.length : Int) < (e.cacheOf p.evaluator).capacity)
    (computation : e.computations[j]? = some c) (isOpen : c.Open)
    (running : (c.ticket, e.keyOf c) ∈ (e.cacheOf p.evaluator).running)
    (cache : e'.cacheOf p'.evaluator = ((e.cacheOf p.evaluator).settle c.ticket (.ok f)).2)
    (computations : e'.computations = e.computations.set j
      { c with stage := .ended ((e.cacheOf p.evaluator).settle c.ticket (.ok f)).1 }) :
    e'.Kept base stock p' := by
  obtain ⟨answer, entries⟩ := (tidy.cacheOf h.before.store_lt).settle_ok running room (f := f)
  rw [answer] at computations
  rw [← cache] at entries
  refine ⟨fun x hx => ?_, fun i d g low hd stage => ?_, ?_⟩
  · rw [entries]
    exact List.mem_append_left _ (kept.old x hx)
  · rw [entries]
    rcases getElem?_set_cases (computations ▸ hd) with ⟨rfl, rfl⟩ | ⟨-, old⟩
    · rw [h.keyOf computation hd]
      obtain rfl : f = g := Except.ok.inj (Stage.ended.inj stage)
      exact List.mem_append_right _ (List.mem_singleton_self _)
    · rw [h.keyOf old hd]
      exact List.mem_append_left _ (kept.own i d g low old stage)
  · have count := kept.count
    rw [entries, computations, isOpen.countP_set computation rfl, List.length_append, List.length_singleton]
    omega

/-- A move drops nothing while there is room for what may be yielded. -/
theorem kept (tidy : e.AllTidy) (kept : e.Kept base stock p)
    (room : (∃ (i : Nat) (c : Computation), e.computations[i]? = some c ∧ c.Open) →
      ((e.cacheOf p.evaluator).entries.length : Int) < (e.cacheOf p.evaluator).capacity) :
    e'.Kept base stock p' := by
  cases h.storeStep with
  | still perm before => exact h.kept_of_perm kept perm before
  | @yields j c f computation isOpen store running cache computations =>
    exact h.kept_of_yielded tidy kept (room ⟨j, c, computation, isOpen⟩) computation isOpen running cache computations

end SoloMove

/-! ### A whole run -/

namespace Solo

/-- A pass runs one computation for a node. -/
theorem length_le_of_mem (h : Solo replies draws k base stock p e) (nodes : List Label)
    (within : ∀ (i : Nat) (c : Computation), base ≤ i → e.computations[i]? = some c → c.node.id ∈ nodes) :
    e.computations.length ≤ base + nodes.length := by
  have there : ∀ {i : Nat} (hi : i < (e.computations.drop base).length),
      e.computations[base + i]? = some (e.computations.drop base)[i] := by
    intro i hi
    rw [← List.getElem?_drop, List.getElem?_eq_getElem hi]
  have once : ((e.computations.drop base).map (·.node.id)).Nodup := by
    rw [List.Nodup, List.pairwise_map, List.pairwise_iff_getElem]
    intro i j hi hj less same
    have := h.underway.distinct _ _ _ _ (there hi) (there hj) (Nat.le_add_right ..) (Nat.le_add_right ..) same
    omega
  have all : (e.computations.drop base).map (·.node.id) ⊆ nodes := by
    intro v hv
    obtain ⟨c, hc, rfl⟩ := List.mem_map.mp hv
    obtain ⟨i, hi, rfl⟩ := List.getElem_of_mem hc
    exact within _ _ (Nat.le_add_right ..) (there hi)
  have fits := (once.subperm all).length_le
  rw [List.length_map, List.length_drop] at fits
  omega

/-- The target depends on the node of every computation of the pass. -/
theorem upstream_of_own (h : Solo replies draws k base stock p e) {i : Nat} {c : Computation} (low : base ≤ i)
    (hc : e.computations[i]? = some c) : e.graph.Upstream c.node.id p.target := by
  apply h.underway.within
  rcases (h.underway.own i c hc low).2 with waiting | ⟨r, -, finished⟩
  · rw [waiting]
    exact Option.some_ne_none _
  · rw [finished]
    exact Option.some_ne_none _

/-- A pass runs no more computations than there are nodes that the target depends on, with the target. -/
theorem length_le (h : Solo replies draws k base stock p e) :
    e.computations.length ≤ base + ((e.graph.ancestors p.target).length + 1) :=
  h.length_le_of_mem (p.target :: e.graph.ancestors p.target) fun _ _ low hc =>
    List.mem_cons.mpr (Graph.upstream_iff.mp (h.upstream_of_own low hc))

/-- While a computation is under way there is room for what it yields, if there was room for as many as the pass
starts. -/
theorem room_of_length_le (h : Solo replies draws k base stock p e) (kept : e.Kept base stock p) {bound : Nat}
    (most : e.computations.length ≤ base + bound)
    (enough : (stock.length + bound : Int) ≤ e.settings.maxCacheEntries)
    (going : ∃ (i : Nat) (c : Computation), e.computations[i]? = some c ∧ c.Open) :
    ((e.cacheOf p.evaluator).entries.length : Int) < (e.cacheOf p.evaluator).capacity := by
  rw [h.ledger.capacity _ _ (h.ledger.cacheOf (h.ledger.evaluators k p h.underway.pass))]
  have count := kept.count
  have fewer : e.computations.countP (·.hasEnded) < e.computations.length := by
    refine Nat.lt_of_le_of_ne List.countP_le_length fun all => ?_
    obtain ⟨i, c, hc, isOpen⟩ := going
    have ended := List.countP_eq_length.mp all c (List.mem_of_getElem? hc)
    rw [isOpen.hasEnded] at ended
    cases ended
  omega

/-- While a computation is under way there is room for what it yields, if there was room for the target and all
nodes that it depends on. -/
theorem room (h : Solo replies draws k base stock p e) (kept : e.Kept base stock p)
    (enough : (stock.length + (e.graph.ancestors p.target).length + 1 : Int) ≤ e.settings.maxCacheEntries)
    (going : ∃ (i : Nat) (c : Computation), e.computations[i]? = some c ∧ c.Open) :
    ((e.cacheOf p.evaluator).entries.length : Int) < (e.cacheOf p.evaluator).capacity :=
  h.room_of_length_le kept h.length_le (by omega) going

/-- While a pass runs alone and there is room, no entry is dropped. -/
theorem kept_steps {e₀ : Engine} {p₀ : Pass} {draws₀ : Draws} (h : Solo replies draws₀ k base stock p₀ e₀)
    (tidy : e₀.AllTidy) (kept : e₀.Kept base stock p₀)
    (enough : (stock.length + (e₀.graph.ancestors p₀.target).length + 1 : Int) ≤ e₀.settings.maxCacheEntries)
    {m : Nat} (run : Steps replies m e₀ e) :
    ∃ draws p, Solo replies draws k base stock p e ∧ (e.AllTidy ∧ e.Kept base stock p) ∧
      remaining e p + m ≤ remaining e₀ p₀ ∧ Grows e₀ e ∧ e.graph = e₀.graph := by
  apply h.along (P := fun _ p e => e.AllTidy ∧ e.Kept base stock p) ⟨tidy, kept⟩ ?_ run
  rintro draws p e draws' p' e' move grows graph ⟨tidy, kept⟩
  have later := h.later grows move.before.underway
  have room := move.before.room kept (by rw [graph, later.target, grows.settings]; exact enough)
  exact ⟨(move.move.cacheStep move.before.ledger).tidy tidy, move.kept tidy kept room⟩

/-- What lasts is true of all caches while a pass runs alone. -/
theorem allCaches_steps {P : Cache → Prop} (lasts : Lasting P) {e₀ : Engine} {p₀ : Pass} {draws₀ : Draws}
    (h : Solo replies draws₀ k base stock p₀ e₀) (all : e₀.AllCaches P) {m : Nat} (run : Steps replies m e₀ e) :
    e.AllCaches P := by
  obtain ⟨_, _, -, all, -⟩ := h.along (P := fun _ _ e => e.AllCaches P) all
    (fun move _ _ all => all.step lasts (move.move.cacheStep move.before.ledger)) run
  exact all

/-- What a node has yielded is stored under its key. -/
theorem stored (h : Solo replies draws k base stock p e) (kept : e.Kept base stock p) {v : Label} {f : Fragment}
    (done : p.result? v = some (.ok f)) : ∃ n, e.graph.node? v = some n ∧
      n.kind.requiredSockets.find? (fun s => !(e.inputsBy (yielded p) v).any (·.1 == s)) = none ∧
      (e.keyFor p.resolution n (e.inputsBy (yielded p) v), f) ∈ (e.cacheOf p.evaluator).entries := by
  cases h.underway.sound v _ (Pass.result?_eq_some.mp done) with
  | gathered result gathers => cases result
  | missed node gathers missing result => cases result
  | @computed n got i c node gathers complete computation key store stage own old =>
    rw [inputsBy_yielded gathers]
    refine ⟨n, node, complete, ?_⟩
    by_cases low : base ≤ i
    · rw [← key]
      exact kept.own i c f low computation stage
    · obtain ⟨g, same, there⟩ := old (Nat.lt_of_not_le low)
      obtain rfl := Except.ok.inj same
      exact kept.old _ there

end Solo

/-- At the outset of a pass nothing has been dropped yet. -/
theorem Calm.kept {n : Nat} {target : Label} {salt : String} (calm : Calm e) (s : Started e n target salt p e') :
    e'.Kept e.computations.length (e.cacheOf n).entries p := by
  obtain ⟨log, rfl⟩ := s.state
  have all : e.computations.countP (·.hasEnded) = e.computations.length := by
    refine List.countP_eq_length.mpr fun c hc => ?_
    obtain ⟨i, hi⟩ := List.mem_iff_getElem?.mp hc
    exact Computation.hasEnded_iff.mpr (calm.computations i c hi)
  refine ⟨fun x hx => ?_, fun i c f low hc => ?_, ?_⟩
  · rw [s.evaluator]
    exact hx
  · exact absurd (List.getElem?_eq_some_iff.mp hc).1 (Nat.not_lt.mpr low)
  · rw [s.evaluator, all]
    exact Nat.le_refl _

end Engine

end VectorGraph
