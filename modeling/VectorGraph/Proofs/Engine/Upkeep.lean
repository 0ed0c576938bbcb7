import Mathlib.Logic.Function.Basic
import VectorGraph.Proofs.Engine.Ledger

/-!
Every move keeps the ledger.

`Ledger.advance` says what has to be seen to: the books of the caches, the computations that are new or
have come to something, and the tasks that are new or have changed. All else carries over to a later
state. The moves are then gone through one by one; the only one that adds to the record of ids is the
run of an operator.
-/
namespace VectorGraph.Engine

variable {e e' : Engine} {replies : Replies} {draws draws' : Draws}

namespace Ledger

/-- The ledger of a later state. -/
theorem advance (h : Ledger replies draws e) (g : Grows e e')
    (books : Books e'.keyOf e'.caches e'.computations)
    (capacity : ∀ (s : Nat) (cache : Cache), e'.caches[s]? = some cache →
      cache.capacity = e'.settings.maxCacheEntries)
    (stores : ∀ (n : Nat) (v : Evaluator), e'.evaluators[n]? = some v → v.store < e'.caches.length)
    (evaluators : ∀ (k : Nat) (p : Pass), e'.passes[k]? = some p → p.evaluator < e'.evaluators.length)
    (computations : ∀ (i : Nat) (d : Computation), e'.computations[i]? = some d →
      (∃ c : Computation, e.computations[i]? = some c ∧ c.Later d ∧ d.stage = c.stage ∧
        draws' i = draws i) ∨
      (∃ p, e'.passes[d.pass]? = some p) ∧ e'.Worked replies (draws' i) d ∧
        ∀ x ∈ d.inputs, ∃ (j : Nat) (c : Computation), j < i ∧ e.computations[j]? = some c ∧
          c.stage = .ended (.ok x.2))
    (tasks : ∀ (k : Nat) (q : Pass), e'.passes[k]? = some q → ∀ v y, q.progress? v = some y →
      (∃ p : Pass, e.passes[k]? = some p ∧ p.Later e'.computations q ∧ p.progress? v = some y) ∨
      e'.Backed q v y) :
    Ledger replies draws' e' := by
  refine ⟨books, capacity, stores, evaluators, fun i d hd => ?_, fun i d hd => ?_, fun i d hd x hx => ?_,
    fun k q hq v y hy => ?_⟩
  · rcases computations i d hd with ⟨c, hc, hcd, -, -⟩ | ⟨there, -, -⟩
    · obtain ⟨p, hp⟩ := h.passes i c hc
      obtain ⟨q, hq, -⟩ := g.passes _ p hp
      exact ⟨q, hcd.pass ▸ hq⟩
    · exact there
  · -- A computation that was there runs as before: neither what it reads of the engine nor what it draws changes.
    rcases computations i d hd with ⟨c, hc, hcd, hstage, hdraws⟩ | ⟨-, worked, -⟩
    · obtain ⟨p, hp⟩ := h.passes i c hc
      have run : e'.runOf d (draws' i) = e.runOf c (draws i) := by rw [hdraws, g.runOf hp hcd]
      cases h.works i c hc with
      | queued hs => exact .queued (hstage.trans hs)
      | painting hs work => exact .painting (hstage.trans hs) (run ▸ work)
      | ended hs yields answered accepted =>
        exact .ended (hstage.trans hs) (run ▸ yields) answered (g.settings ▸ accepted)
    · exact worked
  · have old : ∃ (j : Nat) (c : Computation), j < i ∧ e.computations[j]? = some c ∧
        c.stage = .ended (.ok x.2) := by
      rcases computations i d hd with ⟨c, hc, hcd, -, -⟩ | ⟨-, -, past⟩
      · exact h.past i c hc x (hcd.inputs ▸ hx)
      · exact past x hx
    obtain ⟨j, c, hj, hc, hstage⟩ := old
    obtain ⟨d', hd', hcd'⟩ := g.computations j c hc
    exact ⟨j, d', hj, hd', hcd'.ended _ hstage⟩
  · rcases tasks k q hq v y hy with ⟨p, hp, hpq, hpy⟩ | backed
    · exact g.backed h (h.evaluators k p hp) hpq (h.tasks k p hp v y hpy)
    · exact backed

/-- The graph, the lines reported and the requests made do not count. -/
theorem restate (h : Ledger replies draws e) (graph : Graph) (log : List String)
    (requests : List RasterRequest) :
    Ledger replies draws { e with graph := graph, log := log, requests := requests } where
  books := h.books
  capacity := h.capacity
  stores := h.stores
  evaluators := h.evaluators
  passes := h.passes
  works i c hc := by
    cases h.works i c hc with
    | queued hs => exact .queued hs
    | painting hs work => exact .painting hs work
    | ended hs yields answered accepted => exact .ended hs yields answered accepted
  past := h.past
  tasks k p hp v x hx := by
    have backed := h.tasks k p hp v x hx
    cases x with
    | fresh => trivial
    | gathering needs => exact backed
    | waiting i => exact backed
    | finished r => cases r <;> exact backed

/-- The keys of the computations do not change later on. -/
theorem rekey (h : Ledger replies draws e) (g : Grows e e') {caches : List Cache}
    (books : Books e.keyOf caches e.computations) : Books e'.keyOf caches e.computations :=
  books.rekey fun i c hc => by
    obtain ⟨p, hp⟩ := h.passes i c hc
    exact g.keyOf hp (.refl c)

/-- A pass goes on, and what it holds then is backed. -/
theorem setPass (h : Ledger replies draws e) {k : Nat} {p q : Pass} (hp : e.passes[k]? = some p)
    (later : p.Later e.computations q)
    (tasks : ∀ v y, q.progress? v = some y → p.progress? v = some y ∨ e.Backed q v y) :
    Ledger replies draws (e.setPass k q) := by
  have g : Grows e (e.setPass k q) := .setPass hp later
  have back : ∀ {j : Nat} {s : Pass}, (e.setPass k q).passes[j]? = some s →
      (j = k ∧ s = q) ∨ (j ≠ k ∧ e.passes[j]? = some s) := fun hs => getElem?_set_cases hs
  refine h.advance g (h.rekey g h.books) h.capacity h.stores (fun j s hs => ?_)
    (fun i d hd => .inl ⟨d, hd, .refl d, rfl, rfl⟩) fun j s hs v y hy => ?_
  · rcases back hs with ⟨-, rfl⟩ | ⟨-, hs⟩
    · exact later.evaluator ▸ h.evaluators k p hp
    · exact h.evaluators j s hs
  · rcases back hs with ⟨rfl, rfl⟩ | ⟨-, hs⟩
    · rcases tasks v y hy with hy | backed
      · exact .inl ⟨p, hp, later, hy⟩
      · refine .inr ?_
        -- what backs a task are the computations, and those are untouched
        have same : ∀ c, c ∈ e.computations → (e.setPass j s).extentOf c = e.extentOf c := by
          intro c hc
          obtain ⟨i, hi⟩ := List.mem_iff_getElem?.mp hc
          obtain ⟨r, hr⟩ := h.passes i c hi
          exact g.extentOf hr (.refl c)
        cases y with
        | fresh => trivial
        | gathering needs => exact backed
        | waiting i =>
          obtain ⟨c, hc, hv, hs, hr⟩ := backed
          exact ⟨c, hc, hv, hs, by rw [same c (List.mem_iff_getElem?.mpr ⟨i, hc⟩), hr]⟩
        | finished r =>
          cases r with
          | error failure => trivial
          | ok f =>
            obtain ⟨i, c, hc, hstage, hv, hs, hr⟩ := backed
            exact ⟨i, c, hc, hstage, hv, hs, by
              rw [same c (List.mem_iff_getElem?.mpr ⟨i, hc⟩), hr]⟩
    · exact .inl ⟨s, hs, .refl s, hy⟩

/-- One task of a pass goes on. -/
theorem setTask (h : Ledger replies draws e) {k : Nat} {p : Pass} (hp : e.passes[k]? = some p)
    {v : Label} (y : Progress) (later : ∀ x, p.progress? v = some x → x.Later e.computations y)
    (backed : e.Backed (p.set v y) v y) : Ledger replies draws (e.setPass k (p.set v y)) := by
  refine h.setPass hp (.set y later) fun u x hx => ?_
  by_cases huv : u = v
  · subst huv
    by_cases there : p.progress? u = none
    · have absent : (p.set u y).progress? u = none := by
        by_contra some_
        rw [← ne_eq, ← Pass.mem_names_iff, Pass.names_set, Pass.mem_names_iff] at some_
        exact some_ there
      rw [absent] at hx
      cases hx
    · rw [Pass.progress?_set_self y there] at hx
      obtain rfl := Option.some.inj hx
      exact .inr backed
  · rw [Pass.progress?_set_ne y huv] at hx
    exact .inl hx

/-- A cache that is as large as before may take the place of another. -/
theorem capacity_set (h : Ledger replies draws e) {s t : Nat} {old new cache : Cache} (hs : e.caches[s]? = some old)
    (same : new.capacity = old.capacity) (ht : (e.caches.set s new)[t]? = some cache) :
    cache.capacity = e.settings.maxCacheEntries := by
  rcases getElem?_set_cases ht with ⟨rfl, rfl⟩ | ⟨-, ht⟩
  · exact same.trans (h.capacity t old hs)
  · exact h.capacity t cache ht

theorem cacheOf (h : Ledger replies draws e) {n : Nat} (hn : n < e.evaluators.length) :
    e.caches[e.storeOf n]? = some (e.cacheOf n) := by
  have lt := h.stores n _ (List.getElem?_eq_getElem hn)
  have same : e.storeOf n = e.evaluators[n].store := by
    simp [storeOf, List.getD, List.getElem?_eq_getElem hn]
  rw [Engine.cacheOf, same, List.getElem?_eq_getElem lt]
  simp [List.getD, List.getElem?_eq_getElem lt]

end Ledger

/-! ## Looking up -/

/-- A computation serves a node of a pass: the node waits for it or holds what it has ended with. -/
def Serves (e : Engine) (k : Nat) (v : Label) (i : Nat) : Prop :=
  ∃ (q : Pass) (c : Computation), e.passes[k]? = some q ∧ e.computations[i]? = some c ∧
    (q.progress? v = some (.waiting i) ∨
      ∃ r, c.stage = .ended r ∧ q.progress? v = some (.finished r))

theorem Serves.grows {k i : Nat} {v : Label} (h : e.Serves k v i) (g : Grows e e') : e'.Serves k v i := by
  obtain ⟨p, c, hp, hc, holds⟩ := h
  obtain ⟨q, hq, hpq⟩ := g.passes k p hp
  obtain ⟨d, hd, hcd⟩ := g.computations i c hc
  refine ⟨q, d, hq, hd, ?_⟩
  rcases holds with waiting | ⟨r, hr, finished⟩
  · obtain ⟨y, hy, later⟩ := hpq.tasks v _ waiting
    rcases later with rfl | ⟨d', r, hd', hr, rfl⟩
    · exact .inl hy
    · rw [hd] at hd'
      obtain rfl := Option.some.inj hd'
      exact .inr ⟨r, hr, hy⟩
  · obtain ⟨y, hy, later⟩ := hpq.tasks v _ finished
    obtain rfl : y = .finished r := later
    exact .inr ⟨r, hcd.ended r hr, hy⟩

/-- What a look-up comes to: a computation that was asked for under the key serves the node. -/
structure LookedUp (e : Engine) (k : Nat) (p : Pass) (node : Node) (inputs : Inputs) (e' : Engine) :
    Prop where
  grows : Grows e e'
  served : ∃ (i : Nat) (c : Computation), e'.computations[i]? = some c ∧
    e'.keyOf c = e.keyFor p.resolution node inputs ∧ c.store = e.storeOf p.evaluator ∧
    e'.Serves k node.id i

/-- A task that is neither finished nor waiting. -/
def Undecided (p : Pass) (v : Label) : Prop :=
  p.progress? v = some .fresh ∨ ∃ needs, p.progress? v = some (.gathering needs)

theorem Undecided.later {p : Pass} {v : Label} (h : Undecided p v) (cs : List Computation)
    (y x : Progress) (hx : p.progress? v = some x) : x.Later cs y := by
  rcases h with h | ⟨needs, h⟩ <;> rw [hx] at h <;> obtain rfl := Option.some.inj h <;> trivial

theorem Undecided.ne_none {p : Pass} {v : Label} (h : Undecided p v) : p.progress? v ≠ none := by
  rcases h with h | ⟨needs, h⟩ <;> rw [h] <;> exact Option.some_ne_none _

/-- The task of a node that is set to wait for a computation, or to what one has ended with, is served
by it. -/
theorem serves_setPass {k i : Nat} {p : Pass} {v : Label} {c : Computation} {y : Progress}
    (hp : e.passes[k]? = some p) (there : p.progress? v ≠ none) (hc : e.computations[i]? = some c)
    (holds : y = .waiting i ∨ ∃ r, c.stage = .ended r ∧ y = .finished r) :
    (e.setPass k (p.set v y)).Serves k v i := by
  have hk : k < e.passes.length := (List.getElem?_eq_some_iff.mp hp).1
  refine ⟨p.set v y, c, List.getElem?_set_self hk, hc, ?_⟩
  rw [Pass.progress?_set_self y there]
  rcases holds with rfl | ⟨r, hr, rfl⟩
  · exact .inl rfl
  · exact .inr ⟨r, hr, rfl⟩

theorem keyFor_node {r : Extent} {node : Node} {inputs : Inputs} {c : Computation}
    (h : e.keyOf c = e.keyFor r node inputs) : c.node.id = node.id ∧ (e.extentOf c).count = r.count :=
  ⟨congrArg CacheKey.node h, congrArg CacheKey.resolution h⟩

namespace Ledger

variable {k : Nat} {p : Pass} {node : Node} {inputs : Inputs}

/-- The caches and the computations go on, and the evaluators, the passes and what was done stay as
they are. -/
theorem compute (h : Ledger replies draws e) {s : Nat} {old new : Cache} {cs : List Computation}
    (hs : e.caches[s]? = some old) (capacity : new.capacity = old.capacity)
    (later : AllLater e.computations cs) (books : Books e.keyOf (e.caches.set s new) cs)
    (computations : ∀ (i : Nat) (d : Computation), cs[i]? = some d →
      (∃ c : Computation, e.computations[i]? = some c ∧ c.Later d ∧ d.stage = c.stage) ∨
      (∃ p, e.passes[d.pass]? = some p) ∧ d.stage = .queued ∧
        ∀ x ∈ d.inputs, ∃ (j : Nat) (c : Computation), j < i ∧ e.computations[j]? = some c ∧
          c.stage = .ended (.ok x.2)) :
    Ledger replies draws { e with caches := e.caches.set s new, computations := cs } := by
  refine h.advance (.compute later) books (fun t cache ht => h.capacity_set hs capacity ht) (fun n v hv => ?_)
    h.evaluators (fun i d hd => ?_) fun k' q hq v y hy => .inl ⟨q, hq, .refl q, hy⟩
  · rw [List.length_set]
    exact h.stores n v hv
  · rcases computations i d hd with ⟨c, hc, hcd, hstage⟩ | ⟨there, hstage, past⟩
    · exact .inl ⟨c, hc, hcd, hstage, rfl⟩
    · exact .inr ⟨there, .queued hstage, past⟩

theorem upkeep_found (h : Ledger replies draws e) (hp : e.passes[k]? = some p)
    (undecided : Undecided p node.id) {f : Fragment} {new : Cache}
    (entry : (e.cacheOf p.evaluator).find? (e.keyFor p.resolution node inputs) = some f)
    (hnew : new = { (e.cacheOf p.evaluator).touch (e.keyFor p.resolution node inputs) with
      hits := (e.cacheOf p.evaluator).hits + 1 }) :
    Ledger replies draws ((e.setCache p.evaluator new).setPass k (p.set node.id (.finished (.ok f)))) ∧
    LookedUp e k p node inputs
      ((e.setCache p.evaluator new).setPass k (p.set node.id (.finished (.ok f)))) := by
  have hcache := h.cacheOf (h.evaluators k p hp)
  obtain ⟨i, c, hc, hs, hstage, hkey⟩ := h.books.entries _ _ hcache _ _ (Cache.mem_of_find? entry)
  have h' : Ledger replies draws (e.setCache p.evaluator new) := by
    refine h.compute hcache (by rw [hnew]; rfl) (.refl _) ?_ fun i d hd => .inl ⟨d, hd, .refl d, rfl⟩
    subst hnew
    exact h.books.shrink hcache rfl rfl fun x hx => Cache.mem_touch.mp hx
  obtain ⟨hnode, hr⟩ := keyFor_node hkey
  obtain ⟨r, hpass⟩ := h.passes i c hc
  have g : Grows e (e.setCache p.evaluator new) := .compute (.refl _)
  have g' := g.trans (.setPass hp (.set (.finished (.ok f)) (undecided.later _ _)))
  refine ⟨h'.setTask hp _ (undecided.later _ _) ⟨i, c, hc, hstage, hnode, hs, hr⟩, g', i, c, hc, ?_, hs, ?_⟩
  · exact (g'.keyOf hpass (.refl c)).trans hkey
  · exact serves_setPass hp undecided.ne_none hc (.inr ⟨_, hstage, rfl⟩)

theorem upkeep_joined (h : Ledger replies draws e) (hp : e.passes[k]? = some p)
    (undecided : Undecided p node.id) {ticket : Nat} {isShared : Computation → Bool} {new : Cache}
    (running : (e.cacheOf p.evaluator).ticketOf? (e.keyFor p.resolution node inputs) = some ticket)
    (shared : isShared = fun c => c.store == e.storeOf p.evaluator && c.ticket == ticket)
    (hnew : new = { e.cacheOf p.evaluator with hits := (e.cacheOf p.evaluator).hits + 1 })
    {waiters : Computation → List (Nat × Label)} {e' : Engine}
    (he' : e' = { e.setCache p.evaluator new with
      computations := e.computations.map fun c => { c with waiters := waiters c } }) :
    Ledger replies draws
      (e'.setPass k (p.set node.id (.waiting (e.computations.findIdx isShared)))) ∧
    LookedUp e k p node inputs
      (e'.setPass k (p.set node.id (.waiting (e.computations.findIdx isShared)))) := by
  have hcache := h.cacheOf (h.evaluators k p hp)
  obtain ⟨j, c, hc, hs, hticket, hopen, hkey⟩ :=
    (h.books.running _ _ hcache _ _).mp (Cache.mem_of_ticketOf? running)
  -- the first computation with this ticket is the one that is under way
  have found : e.computations.findIdx isShared = j := by
    have there : isShared c = true := by simp [shared, hs, hticket]
    have hlt : e.computations.findIdx isShared < e.computations.length :=
      List.findIdx_lt_length_of_exists ⟨c, List.mem_iff_getElem?.mpr ⟨j, hc⟩, there⟩
    have first : isShared e.computations[e.computations.findIdx isShared] = true :=
      List.findIdx_getElem
    generalize e.computations.findIdx isShared = i at hlt first
    simp only [shared, Bool.and_eq_true, beq_iff_eq] at first
    exact h.books.unique i j _ c (List.getElem?_eq_getElem hlt) hc (first.1.trans hs.symm)
      (first.2.trans hticket.symm)
  rw [found]
  have mark : ∀ c : Computation, c.Later { c with waiters := waiters c } :=
    fun c => ⟨rfl, rfl, rfl, rfl, rfl, fun _ hr => hr⟩
  have all : AllLater e.computations (e.computations.map fun c => { c with waiters := waiters c }) :=
    .map mark _
  have hc' : e'.computations[j]? = some { c with waiters := waiters c } := by
    rw [he']
    exact (List.getElem?_map ..).trans (by rw [hc]; rfl)
  have h' : Ledger replies draws e' := by
    rw [he']
    refine h.compute hcache (by rw [hnew]) all ?_ fun i d hd => ?_
    · have same : Books e.keyOf (e.caches.set (e.storeOf p.evaluator) new) e.computations :=
        h.books.shrink hcache (by rw [hnew]) (by rw [hnew]) fun x hx => by rw [hnew] at hx; exact hx
      exact same.remark waiters fun c => rfl
    · rw [List.getElem?_map] at hd
      obtain ⟨c, hc, rfl⟩ := Option.map_eq_some_iff.mp hd
      exact .inl ⟨c, hc, mark c, rfl⟩
  have g : Grows e e' := by
    rw [he']
    exact .compute all
  have hp' : e'.passes[k]? = some p := by rw [he']; exact hp
  have stores : e'.storeOf p.evaluator = e.storeOf p.evaluator := by rw [he']; rfl
  obtain ⟨hnode, hr⟩ := keyFor_node hkey
  obtain ⟨r, hpass⟩ := h.passes j c hc
  have g' := g.trans (.setPass hp' (.set (.waiting j) (undecided.later _ _)))
  refine ⟨h'.setTask hp' _ (undecided.later _ _) ⟨_, hc', hnode, hs.trans stores.symm, ?_⟩, g', j, _, hc',
    ?_, hs, ?_⟩
  · exact (congrArg _ (g.extentOf hpass (mark c))).trans hr
  · exact (g'.keyOf hpass (mark c)).trans hkey
  · exact serves_setPass hp' undecided.ne_none hc' (.inl rfl)

theorem upkeep_started (h : Ledger replies draws e) (hp : e.passes[k]? = some p)
    (undecided : Undecided p node.id) {new : Cache} {c : Computation}
    (hnew : new = { e.cacheOf p.evaluator with
      running := (e.cacheOf p.evaluator).running ++
        [((e.cacheOf p.evaluator).issued, e.keyFor p.resolution node inputs)]
      issued := (e.cacheOf p.evaluator).issued + 1
      misses := (e.cacheOf p.evaluator).misses + 1 })
    (hcomp : c = { store := e.storeOf p.evaluator, ticket := (e.cacheOf p.evaluator).issued,
                   pass := k, node, inputs, waiters := [(k, node.id)] })
    {e' : Engine}
    (he' : e' = { e.setCache p.evaluator new with computations := e.computations ++ [c] }) :
    ((∀ x ∈ inputs, ∃ (j : Nat) (c : Computation), e.computations[j]? = some c ∧
        c.stage = .ended (.ok x.2)) →
      Ledger replies draws (e'.setPass k (p.set node.id (.waiting e.computations.length)))) ∧
    LookedUp e k p node inputs (e'.setPass k (p.set node.id (.waiting e.computations.length))) := by
  have hcache := h.cacheOf (h.evaluators k p hp)
  have hs : c.store = e.storeOf p.evaluator := by rw [hcomp]
  have hticket : c.ticket = (e.cacheOf p.evaluator).issued := by rw [hcomp]
  have hpass : e.passes[c.pass]? = some p := by rw [hcomp]; exact hp
  have hnode : c.node = node := by rw [hcomp]
  have hinputs : c.inputs = inputs := by rw [hcomp]
  have hstage : c.stage = .queued := by rw [hcomp]
  -- From here on only these fields count; the record itself would be unfolded in every goal.
  clear hcomp
  have hextent : e.extentOf c = p.resolution := by simp [extentOf, hpass]
  have hkey : e.keyOf c = e.keyFor p.resolution node inputs := by rw [keyOf, hextent, hnode, hinputs]
  have hc : e'.computations[e.computations.length]? = some c := by rw [he']; simp
  have g : Grows e e' := by
    rw [he']
    exact .compute (.append _ _)
  have hp' : e'.passes[k]? = some p := by rw [he']; exact hp
  have hpass' : e'.passes[c.pass]? = some p := by rw [he']; exact hpass
  have stores : e'.storeOf p.evaluator = e.storeOf p.evaluator := by rw [he']; rfl
  have hextent' : e'.extentOf c = p.resolution := by simp [extentOf, hpass']
  have step : Grows e' (e'.setPass k (p.set node.id (.waiting e.computations.length))) :=
    .setPass hp' (.set _ (undecided.later _ _))
  have digest : e'.digest = e.digest := g.digest
  refine ⟨?_, g.trans step, e.computations.length, c, hc, ?_, hs, ?_⟩
  · intro past
    have h' : Ledger replies draws e' := by
      rw [he']
      refine h.compute hcache (by rw [hnew]) (.append _ _) ?_ fun i d hd => ?_
      · subst hnew
        rw [← hkey]
        exact h.books.start hcache hs hticket hstage
      · rcases getElem?_concat_cases hd with hd | ⟨rfl, rfl⟩
        · exact .inl ⟨d, hd, .refl d, rfl⟩
        · refine .inr ⟨⟨p, hpass⟩, hstage, fun x hx => ?_⟩
          obtain ⟨j, c, hc, hcstage⟩ := past x (hinputs ▸ hx)
          exact ⟨j, c, (List.getElem?_eq_some_iff.mp hc).1, hc, hcstage⟩
    exact h'.setTask hp' _ (undecided.later _ _)
      ⟨c, hc, by rw [hnode], hs.trans stores.symm, congrArg _ hextent'⟩
  · rw [step.keyOf hpass' (.refl c), ← hkey]
    simp only [keyOf, keyFor, hextent', hextent, digest]
  · exact serves_setPass hp' undecided.ne_none hc (.inl rfl)

end Ledger

/-- A look-up of fragments that computations have ended with keeps the ledger. In any case the node is
served by a computation that was asked for under the key. -/
theorem Looks.upkeep {k : Nat} {p : Pass} {node : Node} {inputs : Inputs}
    (looks : Looks e k p node inputs e') (h : Ledger replies draws e) (hp : e.passes[k]? = some p)
    (undecided : Undecided p node.id) :
    ((∀ x ∈ inputs, ∃ (j : Nat) (c : Computation), e.computations[j]? = some c ∧
      c.stage = .ended (.ok x.2)) → Ledger replies draws e') ∧ LookedUp e k p node inputs e' := by
  cases looks with
  | found entry =>
    obtain ⟨ledger, answer⟩ := h.upkeep_found hp undecided entry rfl
    exact ⟨fun _ => ledger, answer⟩
  | @joined ticket isShared missing running shared =>
    have marks : (e.computations.map fun c =>
        if isShared c then { c with waiters := c.waiters ++ [(k, node.id)] } else c) =
        e.computations.map fun c =>
          { c with waiters := if isShared c then c.waiters ++ [(k, node.id)] else c.waiters } := by
      refine List.map_congr_left fun d _ => ?_
      split <;> rfl
    rw [marks]
    obtain ⟨ledger, answer⟩ := h.upkeep_joined hp undecided running shared rfl rfl
    exact ⟨fun _ => ledger, answer⟩
  | started missing idle => exact h.upkeep_started hp undecided rfl rfl rfl

/-! ## Going on, running and closing -/

theorem setPass_setPass (e : Engine) (k : Nat) (p q : Pass) :
    (e.setPass k p).setPass k q = e.setPass k q := by simp [setPass]

/-- A look-up may be seen as one in the state that has the pass already. -/
theorem Looks.refocus {k : Nat} {p : Pass} {node : Node} {inputs : Inputs}
    (h : Looks e k p node inputs e') : Looks (e.setPass k p) k p node inputs e' := by
  have same : ∀ (caches : List Cache) (cs : List Computation) (q : Pass),
      ({ e with passes := (e.passes.set k p).set k q, caches := caches, computations := cs } : Engine) =
      { e with passes := e.passes.set k q, caches := caches, computations := cs } := by
    intro caches cs q
    rw [List.set_set]
  cases h with
  | found entry =>
    refine Eq.mp (congrArg (Looks (e.setPass k p) k p node inputs) (same _ _ _)) ?_
    exact @Looks.found (e.setPass k p) k p node inputs _ entry
  | joined missing running shared =>
    refine Eq.mp (congrArg (Looks (e.setPass k p) k p node inputs) (same _ _ _)) ?_
    exact @Looks.joined (e.setPass k p) k p node inputs _ _ missing running shared
  | started missing idle =>
    refine Eq.mp (congrArg (Looks (e.setPass k p) k p node inputs) (same _ _ _)) ?_
    exact @Looks.started (e.setPass k p) k p node inputs missing idle

theorem Continues.refocus {k : Nat} {p : Pass} {v : Label} {kind : Kind}
    {inputs : List (Label × Label)} (h : Continues e k p v kind inputs e') :
    Continues (e.setPass k p) k p v kind inputs e' := by
  cases h with
  | fails gathered =>
    rw [← setPass_setPass e k p (p.set v _)]
    exact .fails gathered
  | misses gathered missing =>
    rw [← setPass_setPass e k p (p.set v _)]
    exact .misses gathered missing
  | looks gathered complete looked => exact .looks gathered complete looked.refocus
  | awaits oneByOne split passed open_ =>
    rw [← setPass_setPass e k p (Pass.ask (p.set v _) _)]
    exact .awaits oneByOne split passed open_

/-- Taking a node into the record of visits changes no task. -/
theorem visit_later (cs : List Computation) (p : Pass) (v : Label) : p.Later cs (visit p v) :=
  ⟨rfl, rfl, rfl, fun _ x h => ⟨x, h, .refl x⟩⟩

namespace Ledger

variable {k : Nat} {p : Pass} {v : Label}

/-- Tasks that are asked for need no backing, and those that gather are backed by their sources. -/
theorem setUndecided (h : Ledger replies draws e) {q : Pass} (hp : e.passes[k]? = some p)
    (later : p.Later e.computations q)
    (tasks : ∀ u y, q.progress? u = some y →
      p.progress? u = some y ∨ y = .fresh ∨ ∃ needs, y = .gathering needs ∧ e.TakenIn q needs) :
    Ledger replies draws (e.setPass k q) := by
  refine h.setPass hp later fun u y hy => ?_
  rcases tasks u y hy with hy | rfl | ⟨needs, rfl, taken⟩
  · exact .inl hy
  · exact .inr trivial
  · exact .inr taken

/-- A node that goes on has taken in the inputs before the pending ones. -/
theorem goesOn (h : Ledger replies draws e) {needs : Gathering} (hp : e.passes[k]? = some p)
    (gathering : p.progress? v = some (.gathering needs))
    (continued : (∀ taken, e.settings.concurrentSiblings = false → needs.inputs = taken ++ needs.pending →
        (∀ i ∈ taken, ∃ r, p.result? i.2 = some r ∧ Pass.Passable r) →
        Continues e k p v needs.kind needs.inputs e') ∧
      (e.settings.concurrentSiblings = true → Continues e k p v needs.kind needs.inputs e')) :
    Continues e k p v needs.kind needs.inputs e' := by
  have backed : e.TakenIn p needs := h.tasks k p hp v _ gathering
  cases order : e.settings.concurrentSiblings with
  | true => exact continued.2 order
  | false =>
    obtain ⟨taken, split, passed⟩ := backed order
    exact continued.1 taken order split passed

/-- What has been gathered in full are fragments that computations have ended with. -/
theorem gathered_past (h : Ledger replies draws e) (hp : e.passes[k]? = some p) {sideBySide : Bool}
    {inputs : List (Label × Label)} {got : Inputs} (gathered : p.Gathers sideBySide inputs (.ok got)) :
    ∀ x ∈ got, ∃ (j : Nat) (c : Computation), e.computations[j]? = some c ∧
      c.stage = .ended (.ok x.2) := by
  intro x hx
  obtain ⟨hlen, hget⟩ := List.forall₂_iff_get.mp gathered.forall₂
  obtain ⟨n, hn, rfl⟩ := List.getElem_of_mem hx
  obtain ⟨-, hresult⟩ := hget n (hlen ▸ hn) hn
  obtain ⟨j, c, hc, hstage, -⟩ := h.tasks k p hp _ _ (Pass.result?_eq_some.mp hresult)
  exact ⟨j, c, hc, hstage⟩

end Ledger

theorem progress?_set_cases {p : Pass} {u v : Label} {x y : Progress}
    (h : (p.set v x).progress? u = some y) : p.progress? u = some y ∨ (u = v ∧ y = x) := by
  by_cases huv : u = v
  · subst huv
    refine .inr ⟨rfl, ?_⟩
    have there : p.progress? u ≠ none := by
      rw [← Pass.mem_names_iff, ← Pass.names_set x, Pass.mem_names_iff, h]
      exact Option.some_ne_none y
    rw [Pass.progress?_set_self x there] at h
    exact (Option.some.inj h).symm
  · exact .inl (by rwa [Pass.progress?_set_ne x huv] at h)

theorem progress?_foldl_ask_cases {p : Pass} {u : Label} {sources : List Label} {y : Progress}
    (h : (sources.foldl Pass.ask p).progress? u = some y) :
    p.progress? u = some y ∨ (u ∈ sources ∧ p.progress? u = none ∧ y = .fresh) := by
  rw [Pass.progress?_foldl_ask] at h
  split at h
  · next new => exact .inr ⟨new.1, new.2, (Option.some.inj h).symm⟩
  · exact .inl h

/-- What going on comes to: the node fails, looks up its key, or awaits a source. -/
theorem Continues.upkeep {k : Nat} {p : Pass} {v : Label} {kind : Kind} {inputs : List (Label × Label)}
    (continued : Continues e k p v kind inputs e') (h : Ledger replies draws e)
    (hp : e.passes[k]? = some p) (undecided : Undecided p v) :
    Ledger replies draws e' ∧ Grows e e' := by
  have one : ∀ failure, Ledger replies draws (e.setPass k (p.set v (.finished (.error failure)))) ∧
      Grows e (e.setPass k (p.set v (.finished (.error failure)))) := fun failure =>
    ⟨h.setTask hp _ (undecided.later _ _) trivial, .setPass hp (.set _ (undecided.later _ _))⟩
  cases continued with
  | fails gathered => exact one _
  | misses gathered missing => exact one _
  | looks gathered complete looked =>
    obtain ⟨ledger, answer⟩ := looked.upkeep h hp undecided
    exact ⟨ledger (h.gathered_past hp gathered), answer.grows⟩
  | @awaits taken rest socket source oneByOne split passed open_ =>
    have later : p.Later e.computations
        ((p.set v (.gathering ⟨kind, inputs, (socket, source) :: rest⟩)).ask source) :=
      (Pass.Later.set _ (undecided.later _ _)).trans (.ask source)
    refine ⟨h.setUndecided hp later fun u y hy => ?_, .setPass hp later⟩
    have asked : ([source].foldl Pass.ask (p.set v _)).progress? u = some y := hy
    rcases progress?_foldl_ask_cases asked with hy | ⟨-, -, hy⟩
    · rcases progress?_set_cases hy with hy | ⟨-, hy⟩
      · exact .inl hy
      · refine .inr (.inr ⟨_, hy, fun _ => ⟨taken, split, fun i hi => ?_⟩⟩)
        obtain ⟨r, hr, hp⟩ := passed i hi
        exact ⟨r, later.results _ r hr, hp⟩
    · exact .inr (.inl hy)

namespace Ledger

/-- A computation comes to something, by a run of its operator from the ids given. -/
theorem work (h : Ledger replies draws e) {i : Nat} {c : Computation} (hc : e.computations[i]? = some c)
    (isOpen : c.Open) {stage : Stage} {ids : IdSource} {caches : List Cache}
    (books : Books e.keyOf caches (e.computations.set i { c with stage }))
    (capacity : ∀ (s : Nat) (cache : Cache), caches[s]? = some cache →
      cache.capacity = e.settings.maxCacheEntries)
    (length : caches.length = e.caches.length)
    (worked : e.Worked replies ids { c with stage }) :
    Ledger replies (Function.update draws i ids)
      { e with caches := caches, computations := e.computations.set i { c with stage } } ∧
    Grows e { e with caches := caches, computations := e.computations.set i { c with stage } } := by
  have all : AllLater e.computations (e.computations.set i { c with stage }) := .set hc (isOpen.stage stage)
  refine ⟨h.advance (.compute all) books capacity (fun n v hv => length ▸ h.stores n v hv) h.evaluators
    (fun j d hd => ?_) fun k q hq v y hy => .inl ⟨q, hq, .refl q, hy⟩, .compute all⟩
  rcases getElem?_set_cases hd with ⟨rfl, rfl⟩ | ⟨hij, hd⟩
  · refine .inr ⟨h.passes j c hc, ?_, fun x hx => h.past j c hc x hx⟩
    rw [Function.update_self]
    cases worked with
    | queued hs => exact .queued hs
    | painting hs work => exact .painting hs work
    | ended hs yields answered accepted => exact .ended hs yields answered accepted
  · exact .inl ⟨d, hd, .refl d, rfl, Function.update_of_ne hij _ _⟩

/-- A computation asks for pixels. -/
theorem paint (h : Ledger replies draws e) {i : Nat} {c : Computation} (hc : e.computations[i]? = some c)
    (isOpen : c.Open) {ids : IdSource} {request : RasterRequest}
    {resume : Except RasterFault Picture → Outcome}
    (work : (e.runOf c ids).1 = .ok (.paint request resume)) :
    Ledger replies (Function.update draws i ids) (e.painting i c request resume) ∧
    Grows e (e.painting i c request resume) := by
  obtain ⟨ledger, grows⟩ := h.work hc isOpen (h.books.paint hc isOpen rfl) h.capacity rfl
    (.painting rfl work)
  exact ⟨ledger.restate e.graph e.log (e.requests ++ [request]),
    grows.restate e.graph e.log (e.requests ++ [request])⟩

/-- A computation ends with a result that its operator can come to. -/
theorem settle (h : Ledger replies draws e) {i : Nat} {c : Computation}
    (hc : e.computations[i]? = some c) (isOpen : c.Open) {ids : IdSource}
    {result : Except Failure Fragment} (yields : Work.Yields replies (e.runOf c ids).1 result)
    (lines : List String) :
    Ledger replies (Function.update draws i ids) (e.ended i c result lines) ∧
    Grows e (e.ended i c result lines) := by
  obtain ⟨cache, hcache, hget, spec⟩ := h.books.settledAs hc isOpen result
  have hcapacity := h.capacity _ _ hcache
  have worked : e.Worked replies ids
      { c with stage := .ended ((e.caches.getD c.store default).settle c.ticket result).1 } := by
    rw [hget]
    exact .ended rfl yields spec.answered fun able => spec.accepted (hcapacity ▸ able)
  obtain ⟨ledger, grows⟩ := h.work hc isOpen (h.books.settle hc isOpen result fun s => rfl)
    (fun s new hs => h.capacity_set hcache (by rw [hget, spec.capacity]) hs) (List.length_set ..) worked
  exact ⟨ledger.restate e.graph lines e.requests, grows.restate e.graph lines e.requests⟩

/-- A pass is told of the ids that a run has left. -/
theorem ran (h : Ledger replies draws e) {c : Computation} {p : Pass}
    (hp : e.passes[c.pass]? = some p) (lines : List String) :
    Ledger replies draws (e.ran c p lines) ∧ Grows e (e.ran c p lines) := by
  have later : p.Later e.computations
      { p with computed := p.computed ++ [c.node.id], ids := (e.workOf p c).2 } :=
    ⟨rfl, rfl, rfl, fun _ x hx => ⟨x, hx, .refl x⟩⟩
  exact ⟨(h.setUndecided hp later fun u y hy => .inl hy).restate _ _ _, (Grows.setPass hp later).restate _ _ _⟩

theorem runOf_ran {c : Computation} {p : Pass} (hp : e.passes[c.pass]? = some p) (lines : List String) :
    (e.ran c p lines).runOf c p.ids = e.workOf p c := by
  have hk : c.pass < e.passes.length := (List.getElem?_eq_some_iff.mp hp).1
  have there : (e.ran c p lines).passes[c.pass]? =
      some { p with computed := p.computed ++ [c.node.id], ids := (e.workOf p c).2 } :=
    List.getElem?_set_self hk
  simp only [runOf, extentOf, there, Option.map_some, Option.getD_some]
  rfl

theorem close (h : Ledger replies draws e) {k : Nat} {p : Pass} (hp : e.passes[k]? = some p)
    (result : Except Failure Fragment) :
    Ledger replies draws (e.close k p result).engine ∧ Grows e (e.close k p result).engine := by
  have later : p.Later e.computations { p with result := some result } :=
    ⟨rfl, rfl, rfl, fun _ x hx => ⟨x, hx, .refl x⟩⟩
  have ledger := h.setUndecided hp later fun u y hy => .inl hy
  have grows : Grows e (e.setPass k { p with result := some result }) := .setPass hp later
  -- what an evaluator is told does not move its cache
  have modified : ∀ (n : Nat) (v : Evaluator), (e.close k p result).engine.evaluators[n]? = some v →
      ∃ v' : Evaluator, e.evaluators[n]? = some v' ∧ v.store = v'.store := by
    intro n v hv
    change (e.evaluators.modify p.evaluator _)[n]? = some v at hv
    rw [List.getElem?_modify] at hv
    obtain ⟨v', hv', rfl⟩ := Option.map_eq_some_iff.mp hv
    refine ⟨v', hv', ?_⟩
    split <;> rfl
  have kept : ∀ (n : Nat) (v : Evaluator), e.evaluators[n]? = some v →
      ∃ v' : Evaluator, (e.close k p result).engine.evaluators[n]? = some v' ∧ v'.store = v.store := by
    intro n v hv
    refine ⟨_, (List.getElem?_modify ..).trans (by rw [hv]; rfl), ?_⟩
    split <;> rfl
  have grows' : Grows e (e.close k p result).engine :=
    ⟨rfl, rfl, rfl, kept, grows.computations, grows.passes⟩
  refine ⟨h.advance grows' ledger.books h.capacity (fun n v hv => ?_) (fun j q hq => ?_)
    (fun i d hd => .inl ⟨d, hd, .refl d, rfl, rfl⟩) fun j q hq v y hy => .inl ?_, grows'⟩
  · obtain ⟨v', hv', hs⟩ := modified n v hv
    exact hs ▸ h.stores n v' hv'
  · change q.evaluator < (e.evaluators.modify p.evaluator _).length
    rw [List.length_modify]
    exact ledger.evaluators j q hq
  · rcases getElem?_set_cases hq with ⟨rfl, rfl⟩ | ⟨-, hq⟩
    · exact ⟨p, hp, later, hy⟩
    · exact ⟨q, hq, .refl q, hy⟩

/-- A task gets what the computation that it waits for has ended with. -/
theorem deliver (h : Ledger replies draws e) {k i : Nat} {p : Pass} {v : Label} {c : Computation}
    {result : Except Failure Fragment} (hp : e.passes[k]? = some p) (waiting : p.progress? v = some (.waiting i))
    (hc : e.computations[i]? = some c) (stage : c.stage = .ended result) :
    Ledger replies draws (e.setPass k (p.set v (.finished result))) ∧
    Grows e (e.setPass k (p.set v (.finished result))) := by
  have later : ∀ x, p.progress? v = some x → x.Later e.computations (.finished result) := by
    intro x hx
    obtain rfl := Option.some.inj (waiting.symm.trans hx)
    exact .inr ⟨c, result, hc, stage, rfl⟩
  refine ⟨h.setTask hp _ later ?_, .setPass hp (.set _ later)⟩
  cases result with
  | error failure => trivial
  | ok f =>
    obtain ⟨d, hd, hv, hs, hr⟩ := h.tasks k p hp v _ waiting
    obtain rfl := Option.some.inj (hc.symm.trans hd)
    exact ⟨i, c, hc, stage, hv, hs, hr⟩

/-- A task asks for all its sources at once. -/
theorem launch (h : Ledger replies draws e) {k : Nat} {p : Pass} {v : Label} {needs : Gathering}
    (hp : e.passes[k]? = some p) (gathering : p.progress? v = some (.gathering needs))
    (sideBySide : e.settings.concurrentSiblings = true) (sources : List Label) :
    Ledger replies draws
      (e.setPass k (sources.foldl Pass.ask (p.set v (.gathering { needs with pending := [] })))) ∧
    Grows e (e.setPass k (sources.foldl Pass.ask (p.set v (.gathering { needs with pending := [] })))) := by
  have undecided : Undecided p v := .inr ⟨needs, gathering⟩
  have later : p.Later e.computations
      (sources.foldl Pass.ask (p.set v (.gathering { needs with pending := [] }))) :=
    (Pass.Later.set _ (undecided.later _ _)).trans (.foldl_ask sources)
  refine ⟨h.setUndecided hp later fun u y hy => ?_, .setPass hp later⟩
  rcases progress?_foldl_ask_cases hy with hy | ⟨-, -, hy⟩
  · rcases progress?_set_cases hy with hy | ⟨-, hy⟩
    · exact .inl hy
    · exact .inr (.inr ⟨_, hy, fun oneByOne => by rw [sideBySide] at oneByOne; cases oneByOne⟩)
  · exact .inr (.inl hy)

end Ledger

/-- No operator is run: the passes keep their records of runs, and what was queued still is. -/
structure Unrun (e e' : Engine) : Prop where
  passes : ∀ (k : Nat) (p p' : Pass), e.passes[k]? = some p → e'.passes[k]? = some p' →
    p'.computed = p.computed ∧ p'.ids = p.ids
  computations : ∀ (i : Nat) (c d : Computation), e.computations[i]? = some c →
    e'.computations[i]? = some d → (d.stage = .queued ↔ c.stage = .queued)
  new : ∀ (i : Nat) (d : Computation), e.computations[i]? = none → e'.computations[i]? = some d →
    d.stage = .queued

namespace Unrun

/-- Passes and computations are changed in what does not tell of runs. -/
theorem of_eq (passes : ∀ (k : Nat) (p p' : Pass), e.passes[k]? = some p → e'.passes[k]? = some p' →
      p'.computed = p.computed ∧ p'.ids = p.ids) (computations : e'.computations = e.computations) :
    Unrun e e' := by
  refine ⟨passes, fun i c d hc hd => ?_, fun i d hc hd => ?_⟩
  · rw [computations, hc] at hd
    rw [Option.some.inj hd]
  · rw [computations, hc] at hd
    cases hd

/-- The pass at a place is replaced by one with the same record. -/
theorem set {k : Nat} {q : Pass} {passes : List Pass} (told : passes = e.passes.set k q)
    (record : ∀ p, e.passes[k]? = some p → q.computed = p.computed ∧ q.ids = p.ids) (j : Nat)
    (p p' : Pass) (hp : e.passes[j]? = some p) (hp' : passes[j]? = some p') :
    p'.computed = p.computed ∧ p'.ids = p.ids := by
  rw [told] at hp'
  rcases getElem?_set_cases hp' with ⟨rfl, rfl⟩ | ⟨-, hp'⟩
  · exact record p hp
  · obtain rfl := Option.some.inj (hp.symm.trans hp')
    exact ⟨rfl, rfl⟩

theorem setPass {k : Nat} {q : Pass}
    (record : ∀ p, e.passes[k]? = some p → q.computed = p.computed ∧ q.ids = p.ids) :
    Unrun e (e.setPass k q) := .of_eq (set rfl record) rfl

/-- A pass is added. -/
theorem addPass (p : Pass) (log : List String) : Unrun e { e with passes := e.passes ++ [p], log := log } := by
  refine .of_eq (fun k q q' hq hq' => ?_) rfl
  obtain rfl := Option.some.inj ((getElem?_concat_of_some hq).symm.trans hq')
  exact ⟨rfl, rfl⟩

/-- A computation that has begun ends. -/
theorem ended {i : Nat} {c : Computation} {result : Except Failure Fragment} {lines : List String}
    (hc : e.computations[i]? = some c) (begun : c.stage ≠ .queued) : Unrun e (e.ended i c result lines) := by
  refine ⟨fun k p p' hp hp' => ?_, fun j b d hb hd => ?_, fun j d hb hd => ?_⟩
  · obtain rfl := Option.some.inj (hp.symm.trans hp')
    exact ⟨rfl, rfl⟩
  · rcases getElem?_set_cases hd with ⟨rfl, rfl⟩ | ⟨-, hd⟩
    · obtain rfl := Option.some.inj (hc.symm.trans hb)
      exact ⟨nofun, fun queued => absurd queued begun⟩
    · rw [Option.some.inj (hd.symm.trans hb)]
  · rcases getElem?_set_cases hd with ⟨rfl, -⟩ | ⟨-, hd⟩
    · rw [hc] at hb
      cases hb
    · rw [hd] at hb
      cases hb

end Unrun

theorem Looks.unrun {k : Nat} {p : Pass} {node : Node} {inputs : Inputs}
    (looks : Looks e k p node inputs e')
    (record : ∀ q, e.passes[k]? = some q → p.computed = q.computed ∧ p.ids = q.ids) : Unrun e e' := by
  cases looks with
  | found entry => exact .of_eq (Unrun.set rfl record) rfl
  | joined missing running shared =>
    refine ⟨Unrun.set rfl record, fun i c d hc hd => ?_, fun i d hc hd => ?_⟩
    · rw [List.getElem?_map, hc] at hd
      rw [← Option.some.inj hd]
      dsimp only
      split <;> exact Iff.rfl
    · rw [List.getElem?_map, hc] at hd
      cases hd
  | started missing idle =>
    refine ⟨Unrun.set rfl record, fun i c d hc hd => ?_, fun i d hc hd => ?_⟩
    · rw [Option.some.inj ((getElem?_concat_of_some hc).symm.trans hd)]
    · rcases getElem?_concat_cases hd with hd | ⟨-, rfl⟩
      · rw [hc] at hd
        cases hd
      · rfl

theorem Continues.unrun {k : Nat} {p : Pass} {v : Label} {kind : Kind} {inputs : List (Label × Label)}
    (continued : Continues e k p v kind inputs e')
    (record : ∀ q, e.passes[k]? = some q → p.computed = q.computed ∧ p.ids = q.ids) : Unrun e e' := by
  cases continued with
  | fails gathered => exact .setPass record
  | misses gathered missing => exact .setPass record
  | looks gathered complete looked => exact looked.unrun record
  | @awaits taken rest socket source oneByOne split passed open_ =>
    refine .setPass fun q hq => ?_
    obtain ⟨tasks, asked⟩ := (p.set v (.gathering ⟨kind, inputs, (socket, source) :: rest⟩)).exists_ask source
    rw [asked]
    exact record q hq

/-- The record of ids after a step: the run of an operator adds those that it starts from, and the pass
is told of the run and of the ids that it leaves. -/
inductive Drawn (draws : Draws) (e : Engine) : Draws → Engine → Prop where
  | kept {e' : Engine} (unrun : Unrun e e') : Drawn draws e draws e'
  | run {e' : Engine} {i : Nat} {c d : Computation} {p : Pass} (computation : e.computations[i]? = some c)
      (queued : c.stage = .queued) (pass : e.passes[c.pass]? = some p)
      (computations : e'.computations = e.computations.set i d) (begun : d.stage ≠ .queued)
      (passes : e'.passes = e.passes.set c.pass
        { p with computed := p.computed ++ [c.node.id], ids := (e.workOf p c).2 }) :
      Drawn draws e (Function.update draws i p.ids) e'

/-- Every move keeps the ledger. -/
theorem Move.upkeep (m : Move replies e e') (h : Ledger replies draws e) :
    ∃ draws', Ledger replies draws' e' ∧ Grows e e' ∧ Drawn draws e draws' e' := by
  -- A task that begins is noted as visited first. The two updates of the pass are taken one by one.
  have begun : ∀ {k : Nat} {p : Pass} {v : Label}, e.passes[k]? = some p →
      Ledger replies draws (e.setPass k (visit p v)) ∧ Grows e (e.setPass k (visit p v)) ∧
      (e.setPass k (visit p v)).passes[k]? = some (visit p v) := by
    intro k p v hp
    refine ⟨h.setUndecided hp (visit_later _ p v) fun u y hy => .inl hy, .setPass hp (visit_later _ p v), ?_⟩
    exact List.getElem?_set_self (List.getElem?_eq_some_iff.mp hp).1
  have same : ∀ {k : Nat} {p r : Pass}, e.passes[k]? = some p → r.computed = p.computed →
      r.ids = p.ids → ∀ q, e.passes[k]? = some q → r.computed = q.computed ∧ r.ids = q.ids := by
    intro k p r hp hc hi q hq
    rw [hp] at hq
    obtain rfl := Option.some.inj hq
    exact ⟨hc, hi⟩
  cases m with
  | @absent k p v pass fresh unknown =>
    obtain ⟨ledger, grows, there⟩ := begun (v := v) pass
    have undecided : Undecided (visit p v) v := .inl fresh
    refine ⟨draws, ?_, ?_, .kept (.setPass (same pass rfl rfl))⟩ <;> rw [← setPass_setPass e k (visit p v)]
    · exact ledger.setTask there _ (undecided.later _ _) trivial
    · exact grows.trans (.setPass there (.set _ (undecided.later _ _)))
  | @gathers k p v n pass fresh known sideBySide some_ =>
    obtain ⟨ledger, grows, there⟩ := begun (v := v) pass
    have undecided : Undecided (visit p v) v := .inl fresh
    have able : e.TakenIn ((visit p v).set v (.gathering ⟨n.kind, e.sortedInputs v, e.sortedInputs v⟩))
        ⟨n.kind, e.sortedInputs v, e.sortedInputs v⟩ := by
      intro oneByOne
      rw [sideBySide] at oneByOne
      cases oneByOne
    refine ⟨draws, ?_, ?_, .kept (.setPass (same pass rfl rfl))⟩ <;> rw [← setPass_setPass e k (visit p v)]
    · exact ledger.setTask there _ (undecided.later _ _) able
    · exact grows.trans (.setPass there (.set _ (undecided.later _ _)))
  | @begins _ k p v n pass fresh known continued =>
    obtain ⟨ledger, grows, there⟩ := begun (v := v) pass
    have undecided : Undecided (visit p v) v := .inl fresh
    obtain ⟨ledger', grows'⟩ := continued.refocus.upkeep ledger there undecided
    exact ⟨draws, ledger', grows.trans grows', .kept (continued.unrun (same pass rfl rfl))⟩
  | @launches k p v needs sources pass gathering sideBySide unasked all =>
    obtain ⟨ledger, grows⟩ := h.launch pass gathering sideBySide sources
    obtain ⟨tasks, asked⟩ := Pass.exists_foldl_ask sources (p.set v (.gathering { needs with pending := [] }))
    exact ⟨draws, ledger, grows, .kept (.setPass (same pass (by rw [asked]; rfl) (by rw [asked]; rfl)))⟩
  | @proceeds _ k p v needs pass gathering ready continued =>
    have undecided : Undecided p v := .inr ⟨needs, gathering⟩
    have goesOn := h.goesOn pass gathering continued
    obtain ⟨ledger, grows⟩ := goesOn.upkeep h pass undecided
    exact ⟨draws, ledger, grows, .kept (goesOn.unrun (same pass rfl rfl))⟩
  | @runsOn i c p request resume lines computation pass queued work =>
    have isOpen := Computation.open_of_queued queued
    obtain ⟨ledger, grows⟩ := h.ran pass lines
    obtain ⟨ledger', grows'⟩ := @Ledger.paint _ _ _ ledger i c computation isOpen p.ids request resume
      ((congrArg Prod.fst (Ledger.runOf_ran pass lines)).trans work)
    exact ⟨_, ledger', grows.trans grows', .run computation queued pass rfl nofun rfl⟩
  | @runsOut i c p result lines lines' computation pass queued yields =>
    have isOpen := Computation.open_of_queued queued
    obtain ⟨ledger, grows⟩ := h.ran pass lines
    obtain ⟨ledger', grows'⟩ := @Ledger.settle _ _ _ ledger i c computation isOpen p.ids result
      ((Ledger.runOf_ran pass lines).symm ▸ yields) lines'
    exact ⟨_, ledger', grows.trans grows', .run computation queued pass rfl nofun rfl⟩
  | @replies i c request resume reply lines computation painted allowed =>
    have isOpen := Computation.open_of_painting painted
    obtain ⟨ledger, grows⟩ := h.settle computation isOpen (h.yields_of_reply computation painted allowed) lines
    rw [Function.update_eq_self] at ledger
    exact ⟨draws, ledger, grows, .kept (.ended computation (by rw [painted]; exact nofun))⟩
  | delivers pass waiting computation stage =>
    obtain ⟨ledger, grows⟩ := h.deliver pass waiting computation stage
    exact ⟨draws, ledger, grows, .kept (.setPass (same pass rfl rfl))⟩
  | @closes k p result pass unclosed finished =>
    obtain ⟨ledger, grows⟩ := h.close pass result
    have record : ∀ q, e.passes[k]? = some q →
        ({ p with result := some result } : Pass).computed = q.computed ∧
        ({ p with result := some result } : Pass).ids = q.ids := same pass rfl rfl
    exact ⟨draws, ledger, grows, .kept (.of_eq (Unrun.set rfl record) rfl)⟩

end VectorGraph.Engine
