import VectorGraph.Proofs.Engine.Usage
import VectorGraph.Proofs.Graph.Order

/-!
A pass that runs alone.

While a pass runs alone on a graph that nobody edits, what it holds can be accounted for by the graph:
the tasks are nodes upstream of the target, a node that gathers has the sources that the graph gives it,
and a node that is finished is so because of its sources or because of a computation for the key that
they give (`Engine.Underway`). Nothing else goes on in the meantime, since every other pass is still and
every earlier computation has ended.

A node of which somebody waits is never left behind: every task that is not finished, but the target, is
awaited by a node that gathers. That is why nothing is left to do when the target is finished.
-/
namespace VectorGraph.Engine

variable {e e' : Engine} {replies : Replies} {draws : Draws} {stock : List (CacheKey × Fragment)}

/-- Nothing can happen in the pass: what is not finished awaits what is not coming. -/
structure Still (e : Engine) (q : Pass) : Prop where
  tasks : ∀ v x, q.progress? v = some x → (∃ r, x = .finished r) ∨
    ∃ needs, x = .gathering needs ∧ needs.isReady e.settings.concurrentSiblings q = false ∧
      (e.settings.concurrentSiblings = true → needs.pending = [])
  closed : q.result = none → q.result? q.target = none

/-- No task of such a pass can go on. -/
theorem Still.stuck {q : Pass} (h : e.Still q) {v : Label} {x : Progress} (hx : q.progress? v = some x)
    (unfinished : ∀ r, x ≠ .finished r)
    (able : ∀ needs, x = .gathering needs → needs.isReady e.settings.concurrentSiblings q = true ∨
      (e.settings.concurrentSiblings = true ∧ needs.pending ≠ [])) : False := by
  rcases h.tasks v x hx with ⟨r, hr⟩ | ⟨needs, hneeds, notReady, asked⟩
  · exact unfinished r hr
  · rcases able needs hneeds with ready | ⟨sideBySide, unasked⟩
    · rw [notReady] at ready
      cases ready
    · exact unasked (asked sideBySide)

/-- Nor can it be closed. -/
theorem Still.not_finished {q : Pass} (h : e.Still q) (unclosed : q.result = none) {r : Except Failure Fragment} :
    q.result? q.target ≠ some r := by
  rw [h.closed unclosed]
  exact nofun

/-- Nothing can happen in any pass, and every computation has ended. -/
structure Calm (e : Engine) : Prop where
  passes : ∀ (k : Nat) (q : Pass), e.passes[k]? = some q → e.Still q
  computations : ∀ (i : Nat) (c : Computation), e.computations[i]? = some c → ∃ r, c.stage = .ended r

theorem Calm.congr (h : Calm e) (settings : e'.settings = e.settings) (passes : e'.passes = e.passes)
    (computations : e'.computations = e.computations) : Calm e' := by
  refine ⟨fun k q hq => ?_, fun i c hc => h.computations i c (computations ▸ hc)⟩
  obtain ⟨tasks, closed⟩ := h.passes k q (passes ▸ hq)
  exact ⟨settings ▸ tasks, closed⟩

/-- A node that gathers waits for a source that it has asked for. -/
def Awaits (e : Engine) (needs : Gathering) (u : Label) : Prop :=
  if e.settings.concurrentSiblings then needs.pending = [] ∧ ∃ i ∈ needs.inputs, i.2 = u
  else ∃ socket rest, needs.pending = (socket, u) :: rest

/-- Why a node of a pass has the result that it has. Computations from `base` on are those of the pass,
and `stock` is what its cache held at the outset. -/
inductive Accounts (e : Engine) (base : Nat) (stock : List (CacheKey × Fragment)) (p : Pass) (v : Label)
    (r : Except Failure Fragment) : Prop where
  | gathered {failure : Failure} (result : r = .error failure)
      (gathers : p.Gathers e.settings.concurrentSiblings (e.sortedInputs v) (.error failure))
  | missed {n : Node} {got : Inputs} {socket : String} (node : e.graph.node? v = some n)
      (gathers : p.Gathers e.settings.concurrentSiblings (e.sortedInputs v) (.ok got))
      (missing : n.kind.requiredSockets.find? (fun s => !got.any (·.1 == s)) = some socket)
      (result : r = .error (.graph (.missingInput v socket)))
  | computed {n : Node} {got : Inputs} {i : Nat} {c : Computation} (node : e.graph.node? v = some n)
      (gathers : p.Gathers e.settings.concurrentSiblings (e.sortedInputs v) (.ok got))
      (complete : n.kind.requiredSockets.find? (fun s => !got.any (·.1 == s)) = none)
      (computation : e.computations[i]? = some c) (key : e.keyOf c = e.keyFor p.resolution n got)
      (store : c.store = e.storeOf p.evaluator) (stage : c.stage = .ended r)
      (own : base ≤ i → c.node = n ∧ c.inputs = got)
      (old : i < base → ∃ f, r = .ok f ∧ (e.keyFor p.resolution n got, f) ∈ stock)

/-- Where the cache held nothing at the outset, what a node comes to is from a computation of the pass. -/
theorem base_le_of_nothing_stored {base i : Nat} {key : CacheKey} {r : Except Failure Fragment}
    (old : i < base → ∃ f, r = .ok f ∧ (key, f) ∈ ([] : List (CacheKey × Fragment))) : base ≤ i := by
  by_contra hlt
  obtain ⟨f, -, stored⟩ := old (Nat.lt_of_not_le hlt)
  cases stored

/-- What a task of the pass holds is as the graph has it. -/
def Sound (e : Engine) (base : Nat) (stock : List (CacheKey × Fragment)) (p : Pass) (v : Label) :
    Progress → Prop
  | .fresh => True
  | .gathering needs => ∃ n, e.graph.node? v = some n ∧ needs.kind = n.kind ∧
      needs.inputs = e.sortedInputs v ∧ (e.settings.concurrentSiblings = false → needs.pending ≠ []) ∧
      ∀ u, e.Awaits needs u → p.progress? u ≠ none ∧ e.graph.Feeds u v
  | .waiting i => base ≤ i ∧ ∃ n c, e.graph.node? v = some n ∧ e.computations[i]? = some c ∧
      c.node = n ∧ n.kind.requiredSockets.find? (fun s => !c.inputs.any (·.1 == s)) = none ∧
      p.Gathers e.settings.concurrentSiblings (e.sortedInputs v) (.ok c.inputs)
  | .finished r => e.Accounts base stock p v r

/-- The pass `p` at place `k` runs alone. The computations from `base` on are its own, and its cache held
`stock` at the outset. -/
structure Underway (e : Engine) (k base : Nat) (stock : List (CacheKey × Fragment)) (p : Pass) :
    Prop where
  pass : e.passes[k]? = some p
  others : ∀ (j : Nat) (q : Pass), e.passes[j]? = some q → j ≠ k → e.Still q
  old : ∀ (i : Nat) (c : Computation), e.computations[i]? = some c → i < base → ∃ r, c.stage = .ended r
  length : base ≤ e.computations.length
  own : ∀ (i : Nat) (c : Computation), e.computations[i]? = some c → base ≤ i → c.pass = k ∧
    (p.progress? c.node.id = some (.waiting i) ∨
      ∃ r, c.stage = .ended r ∧ p.progress? c.node.id = some (.finished r))
  distinct : ∀ (i j : Nat) (c d : Computation), e.computations[i]? = some c → e.computations[j]? = some d →
    base ≤ i → base ≤ j → c.node.id = d.node.id → i = j
  names : (p.tasks.map (·.1)).Nodup
  asked : p.progress? p.target ≠ none
  within : ∀ v, p.progress? v ≠ none → e.graph.Upstream v p.target
  visited : ∀ v, v ∈ p.visited ↔ ∃ x, p.progress? v = some x ∧ x ≠ .fresh
  once : p.visited.Nodup
  sound : ∀ v x, p.progress? v = some x → e.Sound base stock p v x
  awaited : ∀ v x, p.progress? v = some x → (∀ r, x ≠ .finished r) → v = p.target ∨
    ∃ w needs, p.progress? w = some (.gathering needs) ∧ e.Awaits needs v

/-- An entry that the cache of the pass holds was there at the outset, or is from a computation of the
pass. -/
def Stocked (e : Engine) (base : Nat) (stock : List (CacheKey × Fragment)) (p : Pass) : Prop :=
  ∀ x ∈ (e.cacheOf p.evaluator).entries, x ∈ stock ∨
    ∃ (i : Nat) (c : Computation), base ≤ i ∧ e.computations[i]? = some c ∧ e.keyOf c = x.1

/-- One task of a pass goes from `x` to `y`, and sources are asked for. -/
structure TaskStep (p p' : Pass) (v : Label) (x y : Progress) (sources : List Label) : Prop where
  was : p.progress? v = some x
  progress : ∀ u, p'.progress? u = if u = v then some y else
    if u ∈ sources ∧ p.progress? u = none then some .fresh else p.progress? u
  names : (p.tasks.map (·.1)).Nodup → (p'.tasks.map (·.1)).Nodup
  visited : (x = .fresh ∧ p'.visited = p.visited ++ [v]) ∨ (x ≠ .fresh ∧ p'.visited = p.visited)
  evaluator : p'.evaluator = p.evaluator
  target : p'.target = p.target
  resolution : p'.resolution = p.resolution
  result : p'.result = p.result

namespace TaskStep

variable {p p' : Pass} {u v : Label} {x y : Progress} {sources : List Label}

/-- A task that is not fresh is set, and sources are asked for. -/
theorem ofSet (was : p.progress? v = some x) (begun : x ≠ .fresh) (y : Progress) (sources : List Label) :
    TaskStep p (sources.foldl Pass.ask (p.set v y)) v x y sources := by
  obtain ⟨tasks, same⟩ := Pass.exists_foldl_ask sources (p.set v y)
  refine ⟨was, fun u => ?_, fun h => Pass.nodup_foldl_ask sources (by rw [Pass.names_set]; exact h),
    .inr ⟨begun, by rw [same]; rfl⟩, by rw [same]; rfl, by rw [same]; rfl, by rw [same]; rfl, by rw [same]; rfl⟩
  rw [Pass.progress?_foldl_ask, Pass.progress?_set y (by rw [was]; exact Option.some_ne_none x)]
  by_cases huv : u = v
  · simp [huv]
  · simp [huv]

/-- A fresh task is begun and set, and sources are asked for. -/
theorem ofVisit (was : p.progress? v = some .fresh) (y : Progress) (sources : List Label) :
    TaskStep p (sources.foldl Pass.ask ((visit p v).set v y)) v .fresh y sources := by
  obtain ⟨tasks, same⟩ := Pass.exists_foldl_ask sources ((visit p v).set v y)
  have was' : (visit p v).progress? v = some .fresh := was
  refine ⟨was, fun u => ?_, fun h => Pass.nodup_foldl_ask sources (by rw [Pass.names_set]; exact h),
    .inl ⟨rfl, by rw [same]; rfl⟩, by rw [same]; rfl, by rw [same]; rfl, by rw [same]; rfl, by rw [same]; rfl⟩
  rw [Pass.progress?_foldl_ask, Pass.progress?_set y (by rw [was']; exact Option.some_ne_none _)]
  by_cases huv : u = v
  · simp [huv]
  · simp only [huv, if_false]
    rfl

variable (s : TaskStep p p' v x y sources)

include s

theorem self : p'.progress? v = some y := by rw [s.progress, if_pos rfl]

theorem other (h : u ≠ v) (hu : p.progress? u ≠ none) : p'.progress? u = p.progress? u := by
  rw [s.progress, if_neg h, if_neg fun hs => hu hs.2]

/-- Where a task comes from. -/
theorem cases_of {z : Progress} (h : p'.progress? u = some z) :
    (u = v ∧ z = y) ∨ (u ≠ v ∧ u ∈ sources ∧ p.progress? u = none ∧ z = .fresh) ∨
      (u ≠ v ∧ p.progress? u = some z) := by
  rw [s.progress] at h
  split at h
  · next huv => exact .inl ⟨huv, (Option.some.inj h).symm⟩
  · next huv =>
    split at h
    · next new => exact .inr (.inl ⟨huv, new.1, new.2, (Option.some.inj h).symm⟩)
    · exact .inr (.inr ⟨huv, h⟩)

theorem there (h : p.progress? u ≠ none) : p'.progress? u ≠ none := by
  by_cases huv : u = v
  · rw [huv, s.self]
    exact Option.some_ne_none y
  · rw [s.other huv h]
    exact h

/-- The sources have been asked for. -/
theorem asked (h : u ∈ sources) : p'.progress? u ≠ none := by
  by_cases hu : p.progress? u = none
  · by_cases huv : u = v
    · rw [huv, s.self]
      exact Option.some_ne_none y
    · rw [s.progress, if_neg huv, if_pos ⟨h, hu⟩]
      exact Option.some_ne_none _
  · exact s.there hu

theorem results (open_ : ∀ r, x ≠ .finished r) : Pass.ResultsKept p p' := by
  intro u r hr
  rw [Pass.result?_eq_some] at hr ⊢
  have huv : u ≠ v := by
    rintro rfl
    rw [s.was] at hr
    exact open_ r (Option.some.inj hr)
  rw [s.other huv (by rw [hr]; exact Option.some_ne_none _), hr]

theorem mem_visited : u ∈ p'.visited ↔ u ∈ p.visited ∨ (x = .fresh ∧ u = v) := by
  rcases s.visited with ⟨hx, hvis⟩ | ⟨hx, hvis⟩
  · rw [hvis, List.mem_append, List.mem_singleton, and_iff_right hx]
  · rw [hvis, or_iff_left fun h => hx h.1]

/-- The nodes that a pass has begun stay those whose tasks are not fresh. -/
theorem visited_iff (begun : y ≠ .fresh) (h : u ∈ p.visited ↔ ∃ z, p.progress? u = some z ∧ z ≠ .fresh) :
    u ∈ p'.visited ↔ ∃ z, p'.progress? u = some z ∧ z ≠ .fresh := by
  rw [s.mem_visited, h]
  constructor
  · rintro (⟨z, hz, hne⟩ | ⟨-, rfl⟩)
    · by_cases huv : u = v
      · exact ⟨y, huv ▸ s.self, begun⟩
      · exact ⟨z, by rw [s.other huv (by rw [hz]; exact Option.some_ne_none z), hz], hne⟩
    · exact ⟨y, s.self, begun⟩
  · rintro ⟨z, hz, hne⟩
    rcases s.cases_of hz with ⟨rfl, -⟩ | ⟨-, -, -, rfl⟩ | ⟨-, old⟩
    · by_cases hx : x = .fresh
      · exact .inr ⟨hx, rfl⟩
      · exact .inl ⟨x, s.was, hx⟩
    · exact absurd rfl hne
    · exact .inl ⟨z, old, hne⟩

/-- No node is begun twice. -/
theorem nodup_visited (once : p.visited.Nodup) (h : v ∈ p.visited → x ≠ .fresh) : p'.visited.Nodup := by
  rcases s.visited with ⟨hx, hvis⟩ | ⟨-, hvis⟩ <;> rw [hvis]
  · refine List.nodup_append.mpr ⟨once, by simp, fun a ha b hb => ?_⟩
    rintro rfl
    obtain rfl := List.mem_singleton.mp hb
    exact h ha hx
  · exact once

end TaskStep

/-! ## What stays accounted for -/

theorem sortedInputs_congr (h : e'.graph = e.graph) (v : Label) : e'.sortedInputs v = e.sortedInputs v := by
  rw [sortedInputs, sortedInputs, h]

/-- Sources are those that the inputs name. -/
theorem feeds_of_mem {v : Label} {i : Label × Label} (h : i ∈ e.sortedInputs v) :
    e.graph.Feeds i.2 v := by
  rw [sortedInputs, List.mem_mergeSort] at h
  exact List.mem_map_of_mem h

theorem exists_input {u v : Label} (h : e.graph.Feeds u v) : ∃ i ∈ e.sortedInputs v, i.2 = u := by
  obtain ⟨i, hi, rfl⟩ := List.mem_map.mp h
  exact ⟨i, by rw [sortedInputs, List.mem_mergeSort]; exact hi, rfl⟩

/-- `p'` in `e'` is `p` in `e` later on, over the same graph. -/
structure Onward (e e' : Engine) (p p' : Pass) : Prop where
  grows : Grows e e'
  keys : ∀ (i : Nat) (c d : Computation), e.computations[i]? = some c → c.Later d → e'.keyOf d = e.keyOf c
  store : e'.storeOf p'.evaluator = e.storeOf p.evaluator
  graph : e'.graph = e.graph
  resolution : p'.resolution = p.resolution
  kept : Pass.ResultsKept p p'
  there : ∀ u, p.progress? u ≠ none → p'.progress? u ≠ none

theorem Ledger.onward (h : Ledger replies draws e) {k : Nat} {p p' : Pass} (hp : e.passes[k]? = some p)
    (grows : Grows e e') (graph : e'.graph = e.graph) (evaluator : p'.evaluator = p.evaluator)
    (resolution : p'.resolution = p.resolution) (kept : Pass.ResultsKept p p')
    (there : ∀ u, p.progress? u ≠ none → p'.progress? u ≠ none) : Onward e e' p p' where
  grows := grows
  keys i c d hc hcd := by
    obtain ⟨q, hq⟩ := h.passes i c hc
    exact grows.keyOf hq hcd
  store := by rw [evaluator, grows.storeOf (h.evaluators k p hp)]
  graph := graph
  resolution := resolution
  kept := kept
  there := there

theorem Awaits.congr {needs : Gathering} {u : Label} (h : e.Awaits needs u)
    (settings : e'.settings = e.settings) : e'.Awaits needs u := by
  unfold Awaits at h ⊢
  rwa [settings]

namespace Onward

variable {p p' : Pass} {base : Nat} {v : Label}

theorem gathers (o : Onward e e' p p') {r : Except Failure Inputs}
    (h : p.Gathers e.settings.concurrentSiblings (e.sortedInputs v) r) :
    p'.Gathers e'.settings.concurrentSiblings (e'.sortedInputs v) r := by
  rw [o.grows.settings, sortedInputs_congr o.graph]
  exact h.mono o.kept

theorem accounts (o : Onward e e' p p') {r : Except Failure Fragment} (h : e.Accounts base stock p v r) :
    e'.Accounts base stock p' v r := by
  cases h with
  | gathered result gathers => exact .gathered result (o.gathers gathers)
  | missed node gathers missing result =>
    exact .missed (o.graph ▸ node) (o.gathers gathers) missing result
  | @computed n got i c node gathers complete computation key store stage own old =>
    obtain ⟨d, hd, hcd⟩ := o.grows.computations i c computation
    have same : e'.keyFor p'.resolution n got = e.keyFor p.resolution n got := by
      simp only [keyFor, o.resolution, o.grows.digest]
    refine .computed (o.graph ▸ node) (o.gathers gathers) complete hd ?_ ?_ (hcd.ended r stage) ?_
      (same ▸ old)
    · rw [o.keys i c d computation hcd, key, same]
    · rw [hcd.store, store, o.store]
    · rw [hcd.node, hcd.inputs]
      exact own

theorem sound (o : Onward e e' p p') {x : Progress} (h : e.Sound base stock p v x) : e'.Sound base stock p' v x := by
  cases x with
  | fresh => trivial
  | gathering needs =>
    obtain ⟨n, node, kind, inputs, pending, awaits⟩ := h
    refine ⟨n, o.graph ▸ node, kind, ?_, o.grows.settings ▸ pending, fun u hu => ?_⟩
    · rw [sortedInputs_congr o.graph, inputs]
    · obtain ⟨there, feeds⟩ := awaits u (hu.congr o.grows.settings.symm)
      exact ⟨o.there u there, o.graph ▸ feeds⟩
  | waiting i =>
    obtain ⟨hi, n, c, node, computation, same, complete, gathers⟩ := h
    obtain ⟨d, hd, hcd⟩ := o.grows.computations i c computation
    refine ⟨hi, n, d, o.graph ▸ node, hd, hcd.node ▸ same, ?_, ?_⟩
    · rw [hcd.inputs]
      exact complete
    · rw [hcd.inputs]
      exact o.gathers gathers
  | finished r => exact o.accounts h

end Onward

/-! ## One task goes on -/

section TaskStep

variable {k base : Nat} {p p' : Pass} {u v : Label} {x y z : Progress} {sources : List Label}
  (h : Underway e k base stock p) (s : TaskStep p p' v x y sources) (open_ : ∀ r, x ≠ .finished r)

include h s

/-- What has been asked for is still upstream of the target. -/
theorem Underway.upstream_of_step (asks : ∀ u ∈ sources, e.graph.Feeds u v) (hu : p'.progress? u = some z) :
    e.graph.Upstream u p.target := by
  have upstream : e.graph.Upstream v p.target := h.within v (by rw [s.was]; exact Option.some_ne_none x)
  rcases s.cases_of hu with ⟨rfl, -⟩ | ⟨-, asked, -, -⟩ | ⟨-, old⟩
  · exact upstream
  · exact Relation.ReflTransGen.head (asks u asked) upstream
  · exact h.within u (by rw [old]; exact Option.some_ne_none z)

/-- A task that is not finished is awaited still: the one that went on had all that it awaited. -/
theorem Underway.awaited_of_step (settings : e'.settings = e.settings)
    (released : ∀ needs, x = .gathering needs → ∀ u, e.Awaits needs u → ∃ r, p.result? u = some r)
    (hz : p.progress? u = some z) (unfinished : ∀ r, z ≠ .finished r) : u = p.target ∨
      ∃ w needs, p'.progress? w = some (.gathering needs) ∧ e'.Awaits needs u := by
  rcases h.awaited u z hz unfinished with target | ⟨w, needs, hw, awaits⟩
  · exact .inl target
  · by_cases hwv : w = v
    · rw [hwv, s.was] at hw
      obtain ⟨r, hr⟩ := released needs (Option.some.inj hw) u awaits
      rw [Pass.result?_eq_some, hz] at hr
      exact absurd (Option.some.inj hr) (unfinished r)
    · exact .inr ⟨w, needs, by rw [s.other hwv (by rw [hw]; exact Option.some_ne_none _), hw],
        awaits.congr settings⟩

include open_

/-- A computation of the pass is for the task only if the task waits for it. -/
theorem Underway.waiting_of_step {i : Nat} {c : Computation} (hc : e.computations[i]? = some c) (hi : base ≤ i)
    (hv : c.node.id = v) : x = .waiting i := by
  obtain ⟨-, holds⟩ := h.own i c hc hi
  rw [hv, s.was] at holds
  rcases holds with waiting | ⟨r, -, finished⟩
  · exact Option.some.inj waiting
  · exact absurd (Option.some.inj finished) (open_ r)

variable (computations : ∀ (i : Nat) (d : Computation), e'.computations[i]? = some d →
  (∃ c : Computation, e.computations[i]? = some c ∧ c.Later d ∧ d.stage = c.stage) ∨
  (i = e.computations.length ∧ d.pass = k ∧ d.node.id = v ∧ y = .waiting i ∧ ∀ j, x ≠ .waiting j))

include computations

/-- The task of a computation of the pass waits for it, or has what it has ended with. -/
theorem Underway.own_of_step (delivered : ∀ (i : Nat) (c : Computation), x = .waiting i →
      e.computations[i]? = some c → ∃ r, c.stage = .ended r ∧ y = .finished r)
    {i : Nat} {d : Computation} (hd : e'.computations[i]? = some d) (hi : base ≤ i) :
    d.pass = k ∧ (p'.progress? d.node.id = some (.waiting i) ∨
      ∃ r, d.stage = .ended r ∧ p'.progress? d.node.id = some (.finished r)) := by
  rcases computations i d hd with ⟨c, hc, hcd, hstage⟩ | ⟨-, hpass, hv, hy, -⟩
  · obtain ⟨hpass, holds⟩ := h.own i c hc hi
    refine ⟨hcd.pass.trans hpass, ?_⟩
    by_cases hv : c.node.id = v
    · obtain ⟨r, hr, hy⟩ := delivered i c (h.waiting_of_step s open_ hc hi hv) hc
      rw [hcd.node, hv, s.self]
      exact .inr ⟨r, hstage.trans hr, congrArg some hy⟩
    · rw [hcd.node, hstage]
      rcases holds with waiting | ⟨r, hr, finished⟩
      · exact .inl (by rw [s.other hv (by rw [waiting]; exact Option.some_ne_none _), waiting])
      · refine .inr ⟨r, hr, ?_⟩
        rw [s.other hv (by rw [finished]; exact Option.some_ne_none _), finished]
  · exact ⟨hpass, .inl (by rw [hv, s.self, hy])⟩

/-- The pass has one computation for each node: the new one is for a task that had none. -/
theorem Underway.distinct_of_step {i j : Nat} {c d : Computation} (hc : e'.computations[i]? = some c)
    (hd : e'.computations[j]? = some d) (hi : base ≤ i) (hj : base ≤ j) (hv : c.node.id = d.node.id) : i = j := by
  rcases computations i c hc with ⟨c', hc', hcc, -⟩ | ⟨rfl, -, hcv, -, idle⟩ <;>
    rcases computations j d hd with ⟨d', hd', hdd, -⟩ | ⟨rfl, -, hdv, -, idle'⟩
  · exact h.distinct i j c' d' hc' hd' hi hj (by rw [← hcc.node, ← hdd.node, hv])
  · exact absurd (h.waiting_of_step s open_ hc' hi (by rw [← hcc.node, hv, hdv])) (idle' i)
  · exact absurd (h.waiting_of_step s open_ hd' hj (by rw [← hdd.node, ← hv, hcv])) (idle j)
  · rfl

end TaskStep

/-- A task of the pass goes on, be it that it starts a computation. -/
theorem Underway.taskStep {k base : Nat} {p p' : Pass} {v : Label} {x y : Progress}
    {sources : List Label} (h : Underway e k base stock p) (ledger : Ledger replies draws e)
    (s : TaskStep p p' v x y sources) (open_ : ∀ r, x ≠ .finished r)
    (passes : e'.passes = e.passes.set k p') (graph : e'.graph = e.graph) (grows : Grows e e')
    (computations : ∀ (i : Nat) (d : Computation), e'.computations[i]? = some d →
      (∃ c : Computation, e.computations[i]? = some c ∧ c.Later d ∧ d.stage = c.stage) ∨
      (i = e.computations.length ∧ d.pass = k ∧ d.node.id = v ∧ y = .waiting i ∧ ∀ j, x ≠ .waiting j))
    (delivered : ∀ (i : Nat) (c : Computation), x = .waiting i → e.computations[i]? = some c →
      ∃ r, c.stage = .ended r ∧ y = .finished r)
    (sound : e'.Sound base stock p' v y)
    (released : ∀ needs, x = .gathering needs → ∀ u, e.Awaits needs u → ∃ r, p.result? u = some r)
    (asks : ∀ u ∈ sources, e.graph.Feeds u v ∧ ∃ needs, y = .gathering needs ∧ e.Awaits needs u)
    (begun : y ≠ .fresh) : Underway e' k base stock p' where
  pass := by rw [passes, List.getElem?_set_self (List.getElem?_eq_some_iff.mp h.pass).1]
  others j q hq hj := by
    rw [passes, List.getElem?_set_ne (Ne.symm hj)] at hq
    have still := h.others j q hq hj
    exact ⟨grows.settings ▸ still.tasks, still.closed⟩
  old i d hd hi := by
    rcases computations i d hd with ⟨c, hc, hcd, hstage⟩ | ⟨rfl, -⟩
    · obtain ⟨r, hr⟩ := h.old i c hc hi
      exact ⟨r, hstage.trans hr⟩
    · exact absurd hi (Nat.not_lt.mpr h.length)
  length := h.length.trans grows.computations.length_le
  own i d hd hi := h.own_of_step s open_ computations delivered hd hi
  distinct i j c d hc hd hi hj hv := h.distinct_of_step s open_ computations hc hd hi hj hv
  names := s.names h.names
  asked := s.target ▸ s.there h.asked
  within u hu := by
    obtain ⟨z, hz⟩ := Option.ne_none_iff_exists'.mp hu
    rw [s.target, graph]
    exact h.upstream_of_step s (fun u hu => (asks u hu).1) hz
  visited u := s.visited_iff begun (h.visited u)
  once := s.nodup_visited h.once fun hv hx => by
    obtain ⟨z, hz, hne⟩ := (h.visited v).mp hv
    exact hne ((Option.some.inj (hz.symm.trans s.was)).trans hx)
  -- A task is the one that moved, one that was asked for just now and is fresh, or as it was before.
  sound u z hu := by
    have onward := ledger.onward h.pass grows graph s.evaluator s.resolution (s.results open_) fun u => s.there
    rcases s.cases_of hu with ⟨rfl, rfl⟩ | ⟨-, -, -, rfl⟩ | ⟨-, old⟩
    · exact sound
    · trivial
    · exact onward.sound (h.sound u z old)
  awaited u z hu unfinished := by
    rw [s.target]
    rcases s.cases_of hu with ⟨rfl, -⟩ | ⟨-, asked, -, -⟩ | ⟨-, old⟩
    · exact h.awaited_of_step s grows.settings released s.was open_
    · obtain ⟨-, needs, hy, awaits⟩ := asks u asked
      exact .inr ⟨v, needs, hy ▸ s.self, awaits.congr grows.settings⟩
    · exact h.awaited_of_step s grows.settings released old unfinished

end VectorGraph.Engine
