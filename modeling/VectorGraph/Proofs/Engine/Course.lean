import Mathlib.Algebra.Order.BigOperators.Group.List
import Mathlib.Algebra.Order.Ring.Nat
import VectorGraph.Proofs.Engine.Alone

/-!
The course of a pass that runs alone.

Every move of the engine is then a move of that pass: it keeps what is said of a pass underway, and
lowers the work that remains (`Underway.move`). As long as the target is not finished some step is
possible, by going down the graph from the target (`Underway.exists_step`). So every order of steps comes
to an end, and only where the pass is closed; and then nothing is left to do (`Underway.calm`).
-/
namespace VectorGraph.Engine

variable {e e' : Engine} {replies : Replies} {draws : Draws} {k base : Nat}
  {stock : List (CacheKey × Fragment)} {p p' : Pass} {v : Label}

/-! ## The work that remains -/

def stageWork : Stage → Nat
  | .queued => 3
  | .painting _ _ => 2
  | .ended _ => 1

/-- The work on a node: more than it can take to go on, so that asking for a node lowers it as well. -/
def taskWork (e : Engine) (p : Pass) (v : Label) : Nat :=
  match p.progress? v with
  | none => e.graph.edges.length + 7
  | some .fresh => e.graph.edges.length + 6
  | some (.gathering needs) => needs.pending.length + 4
  | some (.waiting i) => ((e.computations[i]?).map fun c => stageWork c.stage).getD 3
  | some (.finished _) => 0

/-- The work on all nodes, and on the pass itself until it is closed. -/
def remaining (e : Engine) (p : Pass) : Nat :=
  ((e.graph.nodes.map (·.id)).map (taskWork e p)).sum + if p.result.isNone then 1 else 0

theorem stageWork_le (s : Stage) : stageWork s ≤ 3 := by
  cases s <;> simp [stageWork]

theorem taskWork_finished {r : Except Failure Fragment} (h : p.progress? v = some (.finished r)) :
    taskWork e p v = 0 := by
  simp only [taskWork, h]

theorem taskWork_gathering {needs : Gathering} (h : p.progress? v = some (.gathering needs)) :
    taskWork e p v = needs.pending.length + 4 := by
  simp only [taskWork, h]

theorem taskWork_waiting {i : Nat} {c : Computation} (h : p.progress? v = some (.waiting i))
    (hc : e.computations[i]? = some c) : taskWork e p v = stageWork c.stage := by
  simp only [taskWork, h, hc, Option.map_some, Option.getD_some]

/-- Less work on one node, and no more on the others, is less work. -/
theorem remaining_lt (graph : e'.graph = e.graph) (result : p'.result = p.result)
    (there : e.graph.hasNode v = true) (less : taskWork e' p' v < taskWork e p v)
    (others : ∀ u, u ≠ v → taskWork e' p' u ≤ taskWork e p u) : remaining e' p' < remaining e p := by
  have sums : ((e.graph.nodes.map (·.id)).map (taskWork e' p')).sum <
      ((e.graph.nodes.map (·.id)).map (taskWork e p)).sum := by
    refine List.sum_lt_sum _ _ (fun u _ => ?_) ⟨v, Graph.hasNode_iff.mp there, less⟩
    by_cases huv : u = v
    · rw [huv]
      exact Nat.le_of_lt less
    · exact others u huv
  unfold remaining
  rw [graph, result]
  omega

/-- A task that is as it was takes no more work, when no computation does. -/
theorem taskWork_le (graph : e'.graph = e.graph) (same : p'.progress? v = p.progress? v)
    (stages : ∀ (i : Nat) (c : Computation), e.computations[i]? = some c →
      ∃ d : Computation, e'.computations[i]? = some d ∧ stageWork d.stage ≤ stageWork c.stage) :
    taskWork e' p' v ≤ taskWork e p v := by
  unfold taskWork
  rw [same, graph]
  cases p.progress? v with
  | none => exact Nat.le_refl _
  | some x =>
    cases x with
    | fresh => exact Nat.le_refl _
    | gathering needs => exact Nat.le_refl _
    | finished r => exact Nat.le_refl _
    | waiting i =>
      cases hc : e.computations[i]? with
      | none =>
        simp only [hc, Option.map_none, Option.getD_none]
        cases e'.computations[i]? with
        | none => exact Nat.le_refl _
        | some d => exact stageWork_le d.stage
      | some c =>
        obtain ⟨d, hd, hstage⟩ := stages i c hc
        simp only [hc, hd, Option.map_some, Option.getD_some]
        exact hstage

theorem TaskStep.remaining_lt {x y : Progress} {sources : List Label} (s : TaskStep p p' v x y sources)
    (graph : e'.graph = e.graph) (there : e.graph.hasNode v = true)
    (stages : ∀ (i : Nat) (c : Computation), e.computations[i]? = some c →
      ∃ d : Computation, e'.computations[i]? = some d ∧ d.stage = c.stage)
    (less : taskWork e' p' v < taskWork e p v) : remaining e' p' < remaining e p := by
  refine Engine.remaining_lt graph s.result there less fun u huv => ?_
  by_cases asked : u ∈ sources ∧ p.progress? u = none
  · unfold taskWork
    rw [s.progress, if_neg huv, if_pos asked, asked.2, graph]
    exact Nat.le_succ _
  · refine taskWork_le graph (by rw [s.progress, if_neg huv, if_neg asked]) fun i c hc => ?_
    obtain ⟨d, hd, hstage⟩ := stages i c hc
    exact ⟨d, hd, by rw [hstage]⟩

/-! ## Going on -/

/-- A task of the pass that is neither finished nor waiting has no computation. -/
theorem Underway.no_computation (h : Underway e k base stock p) (undecided : Undecided p v) {i : Nat}
    {c : Computation} (hc : e.computations[i]? = some c) (hv : c.node.id = v) : i < base := by
  by_contra hi
  obtain ⟨-, holds⟩ := h.own i c hc (Nat.le_of_not_lt hi)
  rw [hv] at holds
  rcases undecided with fresh | ⟨needs, gathering⟩
  · rcases holds with waiting | ⟨r, -, finished⟩
    · rw [fresh] at waiting
      cases waiting
    · rw [fresh] at finished
      cases finished
  · rcases holds with waiting | ⟨r, -, finished⟩
    · rw [gathering] at waiting
      cases waiting
    · rw [gathering] at finished
      cases finished

theorem node_eq {n : Node} (node : e.graph.node? v = some n) : (⟨v, n.kind, e.paramsOf v⟩ : Node) = n := by
  have hid := Graph.node?_id node
  simp only [paramsOf, node, Option.map_some, Option.getD_some]
  cases n
  cases hid
  rfl

/-- What a node goes on from: the pass as it is, or after the node has begun. -/
structure GoesOn (e : Engine) (p q : Pass) (v : Label) (x : Progress) : Prop where
  undecided : Undecided p v
  step : ∀ y sources, TaskStep p (sources.foldl Pass.ask (q.set v y)) v x y sources
  tasks : q.tasks = p.tasks
  evaluator : q.evaluator = p.evaluator
  resolution : q.resolution = p.resolution
  released : ∀ needs, x = .gathering needs → ∀ u, e.Awaits needs u → ∃ r, p.result? u = some r
  /-- A node that awaits a further source has got further in its inputs. -/
  shorter : ∀ taken rest socket source, e.sortedInputs v = taken ++ (socket, source) :: rest →
    (∀ i ∈ taken, ∃ r, p.result? i.2 = some r ∧ Pass.Passable r) → p.result? source = none →
    rest.length + 5 < taskWork e p v
  heavy : 3 < taskWork e p v

theorem GoesOn.open_ {q : Pass} {x : Progress} (g : GoesOn e p q v x) : (∀ r, x ≠ .finished r) ∧
    ∀ i, x ≠ .waiting i := by
  have was := (g.step .fresh []).was
  rcases g.undecided with fresh | ⟨needs, gathering⟩
  · rw [fresh] at was
    obtain rfl := Option.some.inj was
    exact ⟨fun _ => nofun, fun _ => nofun⟩
  · rw [gathering] at was
    obtain rfl := Option.some.inj was
    exact ⟨fun _ => nofun, fun _ => nofun⟩

theorem length_sortedInputs (e : Engine) (v : Label) :
    (e.sortedInputs v).length ≤ e.graph.edges.length := by
  have few := Nat.le_trans (Graph.length_sourcesOf e.graph v) (List.length_filter_le _ _)
  rw [Graph.sourcesOf, List.length_map] at few
  rw [sortedInputs, List.length_mergeSort]
  exact few

section GoesOn

variable {q : Pass} {x : Progress} {n : Node}

theorem hasNode_of_node? (node : e.graph.node? v = some n) : e.graph.hasNode v = true :=
  Graph.hasNode_iff.mpr (List.mem_map.mpr ⟨n, List.mem_of_find?_eq_some node, Graph.node?_id node⟩)

theorem GoesOn.result? (g : GoesOn e p q v x) (u : Label) : q.result? u = p.result? u := by
  simp only [Pass.result?, Pass.progress?, g.tasks]

theorem GoesOn.gathers (g : GoesOn e p q v x) {inputs : List (Label × Label)} {got : Except Failure Inputs}
    (h : q.Gathers e.settings.concurrentSiblings inputs got) :
    p.Gathers e.settings.concurrentSiblings inputs got :=
  h.mono fun u r hr => by rw [← g.result?]; exact hr

variable (h : Underway e k base stock p) (ledger : Ledger replies draws e) (grows : Grows e e')
  (g : GoesOn e p q v x) (node : e.graph.node? v = some n)

include h ledger grows g node

/-- The node is finished, and no computation is new. -/
theorem Underway.finishes {r : Except Failure Fragment} (accounts : e.Accounts base stock p v r)
    (passes : e'.passes = e.passes.set k (q.set v (.finished r))) (graph : e'.graph = e.graph)
    (computations : e'.computations = e.computations) :
    ∃ p', Underway e' k base stock p' ∧ remaining e' p' < remaining e p := by
  obtain ⟨unfinished, idle⟩ := g.open_
  have s : TaskStep p (q.set v (.finished r)) v x (.finished r) [] := g.step (.finished r) []
  have onward := ledger.onward h.pass grows graph s.evaluator s.resolution (s.results unfinished)
    fun u => s.there
  refine ⟨_, h.taskStep ledger s unfinished passes graph grows
    (fun i d hd => .inl ⟨d, computations ▸ hd, .refl d, rfl⟩) (fun i c hx => absurd hx (idle i))
    (onward.accounts accounts) g.released (fun u hu => absurd hu List.not_mem_nil) nofun, ?_⟩
  refine s.remaining_lt graph (hasNode_of_node? node) (fun i c hc => ⟨c, computations ▸ hc, rfl⟩) ?_
  rw [taskWork_finished s.self]
  exact Nat.lt_of_le_of_lt (Nat.zero_le 3) g.heavy

/-- The node asks for its next source, and awaits it. -/
theorem Underway.asksNext {taken rest : List (Label × Label)} {socket source : Label}
    (oneByOne : e.settings.concurrentSiblings = false)
    (split : e.sortedInputs v = taken ++ (socket, source) :: rest)
    (passed : ∀ i ∈ taken, ∃ r, q.result? i.2 = some r ∧ Pass.Passable r)
    (unknown : q.result? source = none)
    (passes : e'.passes = e.passes.set k
      ((q.set v (.gathering ⟨n.kind, e.sortedInputs v, (socket, source) :: rest⟩)).ask source))
    (graph : e'.graph = e.graph) (computations : e'.computations = e.computations) :
    ∃ p', Underway e' k base stock p' ∧ remaining e' p' < remaining e p := by
  obtain ⟨unfinished, idle⟩ := g.open_
  generalize hneeds : (⟨n.kind, e.sortedInputs v, (socket, source) :: rest⟩ : Gathering) = needs
  have s : TaskStep p ((q.set v (.gathering needs)).ask source) v x (.gathering needs) [source] :=
    g.step (.gathering needs) [source]
  have feeds : e.graph.Feeds source v :=
    feeds_of_mem (i := (socket, source)) (by rw [split]; exact List.mem_append_right _ List.mem_cons_self)
  have awaits : ∀ u, e.Awaits needs u ↔ u = source := by
    intro u
    simp only [Awaits, oneByOne, Bool.false_eq_true, if_false, ← hneeds]
    exact ⟨fun ⟨_, _, hu⟩ => (Prod.mk.inj (List.cons.inj hu).1).2.symm, fun hu => ⟨socket, rest, by rw [hu]⟩⟩
  have sound : e'.Sound base stock ((q.set v (.gathering needs)).ask source) v (.gathering needs) := by
    refine ⟨n, graph ▸ node, by rw [← hneeds], ?_, fun _ => by simp [← hneeds], fun u hu => ?_⟩
    · rw [sortedInputs_congr graph, ← hneeds]
    · rw [(awaits u).mp (hu.congr grows.settings.symm)]
      exact ⟨s.asked (List.mem_singleton.mpr rfl), graph ▸ feeds⟩
  rw [hneeds] at passes
  refine ⟨_, h.taskStep ledger s unfinished passes graph grows
    (fun i d hd => .inl ⟨d, computations ▸ hd, .refl d, rfl⟩) (fun i c hx => absurd hx (idle i)) sound
    g.released (fun u hu => ?_) nofun, ?_⟩
  · rw [List.mem_singleton.mp hu]
    exact ⟨feeds, needs, rfl, (awaits source).mpr rfl⟩
  · refine s.remaining_lt graph (hasNode_of_node? node) (fun i c hc => ⟨c, computations ▸ hc, rfl⟩) ?_
    -- The source is not finished, so it stands behind all that was taken in before: less is pending than there was.
    have short := g.shorter taken rest socket source split
      (fun i hi => by rw [← g.result?]; exact passed i hi) (by rw [← g.result?]; exact unknown)
    rw [taskWork_gathering s.self, ← hneeds]
    exact short

/-- The node starts a computation, and waits for it. -/
theorem Underway.startsOne {c : Computation} (pass : c.pass = k) (hnode : c.node = n)
    (queued : c.stage = .queued)
    (gathers : q.Gathers e.settings.concurrentSiblings (e.sortedInputs v) (.ok c.inputs))
    (complete : n.kind.requiredSockets.find? (fun s => !c.inputs.any (·.1 == s)) = none)
    (passes : e'.passes = e.passes.set k (q.set v (.waiting e.computations.length)))
    (graph : e'.graph = e.graph) (computations : e'.computations = e.computations ++ [c]) :
    ∃ p', Underway e' k base stock p' ∧ remaining e' p' < remaining e p := by
  obtain ⟨unfinished, idle⟩ := g.open_
  generalize hlast : e.computations.length = last at passes
  have s : TaskStep p (q.set v (.waiting last)) v x (.waiting last) [] := g.step (.waiting last) []
  have onward := ledger.onward h.pass grows graph s.evaluator s.resolution (s.results unfinished)
    fun u => s.there
  have there : e'.computations[last]? = some c := by rw [computations, ← hlast]; simp
  have sound : e'.Sound base stock (q.set v (.waiting last)) v (.waiting last) :=
    ⟨hlast ▸ h.length, n, c, graph ▸ node, there, hnode, complete, onward.gathers (g.gathers gathers)⟩
  refine ⟨_, h.taskStep ledger s unfinished passes graph grows (fun i d hd => ?_)
    (fun i c hx => absurd hx (idle i)) sound g.released (fun u hu => absurd hu List.not_mem_nil) nofun, ?_⟩
  · rw [computations] at hd
    rcases getElem?_concat_cases hd with hd | ⟨hi, rfl⟩
    · exact .inl ⟨d, hd, .refl d, rfl⟩
    · exact .inr ⟨hi, pass, by rw [hnode, Graph.node?_id node], by rw [hi, hlast], idle⟩
  · refine s.remaining_lt graph (hasNode_of_node? node)
      (fun i d hd => ⟨d, computations ▸ getElem?_concat_of_some hd, rfl⟩) ?_
    rw [taskWork_waiting s.self there, queued]
    exact g.heavy

/-- A node that goes on keeps the pass underway, with less work left. -/
theorem Underway.continues (stocked : e.Stocked base stock p) (continued : Continues e k q v n.kind (e.sortedInputs v) e') :
    ∃ p', Underway e' k base stock p' ∧ remaining e' p' < remaining e p := by
  cases continued with
  | fails gathered => exact h.finishes ledger grows g node (.gathered rfl (g.gathers gathered)) rfl rfl rfl
  | misses gathered missing =>
    exact h.finishes ledger grows g node (.missed node (g.gathers gathered) missing rfl) rfl rfl rfl
  | awaits oneByOne split passed unknown =>
    exact h.asksNext ledger grows g node oneByOne split passed unknown rfl rfl rfl
  | @looks _ got gathered complete looked =>
    have hv := Graph.node?_id node
    have hcache := ledger.cacheOf (ledger.evaluators k p h.pass)
    -- a computation under the key of the node would be an earlier one
    have earlier : ∀ {i : Nat} {c : Computation}, e.computations[i]? = some c →
        e.keyOf c = e.keyFor p.resolution n got → i < base := fun hc hkey =>
      h.no_computation g.undecided hc ((keyFor_node hkey).1.trans hv)
    rw [node_eq node] at looked
    cases looked with
    | @found f entry =>
      rw [g.evaluator, g.resolution] at entry
      obtain ⟨i, c, hc, hstore, hstage, hkey⟩ :=
        ledger.books.entries _ _ hcache _ _ (Cache.mem_of_find? entry)
      have stored : (e.keyFor p.resolution n got, f) ∈ stock := by
        rcases stocked _ (Cache.mem_of_find? entry) with stored | ⟨j, d, hj, hd, hkey'⟩
        · exact stored
        · exact absurd (earlier hd hkey') (Nat.not_lt.mpr hj)
      have accounts : e.Accounts base stock p v (.ok f) :=
        .computed node (g.gathers gathered) complete hc hkey hstore hstage
          (fun hi => absurd (earlier hc hkey) (Nat.not_lt.mpr hi)) fun _ => ⟨f, rfl, stored⟩
      exact h.finishes ledger grows g node accounts (by rw [hv]; rfl) rfl rfl
    | joined missing running shared =>
      rw [g.evaluator, g.resolution] at running
      obtain ⟨j, c, hc, -, -, hopen, hkey⟩ :=
        (ledger.books.running _ _ hcache _ _).mp (Cache.mem_of_ticketOf? running)
      obtain ⟨r, hr⟩ := h.old j c hc (earlier hc hkey)
      exact absurd hr (hopen r)
    | started missing idle =>
      exact h.startsOne ledger grows g node rfl rfl rfl gathered complete (by rw [hv]; rfl) rfl rfl

end GoesOn

/-! ## Every move is one of the pass -/

theorem Continues.graph {q : Pass} {kind : Kind} {inputs : List (Label × Label)}
    (h : Continues e k q v kind inputs e') : e'.graph = e.graph := by
  cases h with
  | fails gathered => rfl
  | misses gathered missing => rfl
  | awaits oneByOne split passed unknown => rfl
  | looks gathered complete looked => cases looked <;> rfl

/-- No move edits the graph. -/
theorem Move.graph (ledger : Ledger replies draws e) (m : Move replies e e') : e'.graph = e.graph := by
  cases m with
  | begins pass fresh known continued => exact continued.graph
  | proceeds pass gathering ready continued => exact (ledger.goesOn pass gathering continued).graph
  | _ => rfl

section Here

variable {j : Nat} {q : Pass} {x : Progress}

/-- A task that can go on is one of the pass that runs. -/
theorem Underway.here (h : Underway e k base stock p) (hq : e.passes[j]? = some q)
    (hx : q.progress? v = some x) (unfinished : ∀ r, x ≠ .finished r)
    (able : ∀ needs, x = .gathering needs → needs.isReady e.settings.concurrentSiblings q = true ∨
      (e.settings.concurrentSiblings = true ∧ needs.pending ≠ [])) : j = k ∧ q = p := by
  have hj : j = k := by
    by_contra hne
    exact (h.others j q hq hne).stuck hx unfinished able
  subst hj
  exact ⟨rfl, Option.some.inj (hq.symm.trans h.pass)⟩

/-- A pass that can be closed is the pass that runs. -/
theorem Underway.closes_here (h : Underway e k base stock p) (hq : e.passes[j]? = some q) (unclosed : q.result = none)
    {r : Except Failure Fragment} (finished : q.result? q.target = some r) : j = k ∧ q = p := by
  have hj : j = k := by
    by_contra hne
    exact (h.others j q hq hne).not_finished unclosed finished
  subst hj
  exact ⟨rfl, Option.some.inj (hq.symm.trans h.pass)⟩

theorem Underway.exists_node {rank : Label → Nat} (h : Underway e k base stock p)
    (ranked : e.graph.Ranked p.target rank) (hv : p.progress? v ≠ none) :
    ∃ n, e.graph.node? v = some n := by
  obtain ⟨n, hn, -⟩ := Graph.exists_node (ranked.hasNode v (h.within v hv))
  exact ⟨n, hn⟩

end Here

section Steps

variable (h : Underway e k base stock p) (ledger : Ledger replies draws e) (grows : Grows e e')

include h ledger grows

/-- A pass whose table stays as it is stays underway, whatever becomes of its computations. -/
theorem Underway.sameTable (follows : Books.Follows e.computations e'.computations)
    (passes : ∀ j, j ≠ k → e'.passes[j]? = e.passes[j]?) (pass : e'.passes[k]? = some p')
    (graph : e'.graph = e.graph) (tasks : p'.tasks = p.tasks) (visited : p'.visited = p.visited)
    (evaluator : p'.evaluator = p.evaluator) (target : p'.target = p.target)
    (resolution : p'.resolution = p.resolution) : Underway e' k base stock p' := by
  have progress : ∀ u, p'.progress? u = p.progress? u := fun u => by simp only [Pass.progress?, tasks]
  have onward := ledger.onward h.pass grows graph evaluator resolution
    (fun u r hr => by simpa only [Pass.result?, progress] using hr) fun u hu => progress u ▸ hu
  exact {
    pass := pass
    others := fun j q hq hj => by
      rw [passes j hj] at hq
      have still := h.others j q hq hj
      exact ⟨grows.settings ▸ still.tasks, still.closed⟩
    old := fun i d hd hi => by
      obtain ⟨c, hc, later⟩ := follows i d hd
      obtain ⟨r, hr⟩ := h.old i c hc hi
      exact ⟨r, later.ended r hr⟩
    length := h.length.trans grows.computations.length_le
    own := fun i d hd hi => by
      obtain ⟨c, hc, later⟩ := follows i d hd
      obtain ⟨hpass, holds⟩ := h.own i c hc hi
      rw [progress, later.node]
      refine ⟨later.pass.trans hpass, ?_⟩
      rcases holds with waiting | ⟨r, hr, finished⟩
      · exact .inl waiting
      · exact .inr ⟨r, later.ended r hr, finished⟩
    distinct := fun i j d d' hd hd' hi hj hv => by
      obtain ⟨c, hc, later⟩ := follows i d hd
      obtain ⟨c', hc', later'⟩ := follows j d' hd'
      exact h.distinct i j c c' hc hc' hi hj (by rw [← later.node, ← later'.node, hv])
    names := tasks ▸ h.names
    asked := by rw [target, progress]; exact h.asked
    within := fun u hu => by rw [target, graph]; exact h.within u (progress u ▸ hu)
    visited := fun u => by rw [visited, progress]; exact h.visited u
    once := visited ▸ h.once
    sound := fun u x hu => onward.sound (h.sound u x (progress u ▸ hu))
    awaited := fun u x hu unfinished => by
      rw [target]
      rcases h.awaited u x (progress u ▸ hu) unfinished with same | ⟨w, needs, hw, awaits⟩
      · exact .inl same
      · exact .inr ⟨w, needs, (progress w).trans hw, awaits.congr grows.settings⟩ }

omit ledger grows in
/-- A computation that has not ended is one of the pass. -/
theorem Underway.own_of_open {i : Nat} {c : Computation} (hc : e.computations[i]? = some c) (isOpen : c.Open) :
    base ≤ i ∧ c.pass = k ∧ p.progress? c.node.id = some (.waiting i) := by
  have hi : base ≤ i := by
    by_contra hlt
    obtain ⟨r, hr⟩ := h.old i c hc (Nat.lt_of_not_le hlt)
    exact isOpen r hr
  obtain ⟨hpass, waiting | ⟨r, hr, -⟩⟩ := h.own i c hc hi
  · exact ⟨hi, hpass, waiting⟩
  · exact absurd hr (isOpen r)

/-- A computation of the pass comes to something. The pass may have run it. -/
theorem Underway.computes {i : Nat} {c d : Computation} (hc : e.computations[i]? = some c)
    (isOpen : c.Open) (hcd : c.Later d) (less : stageWork d.stage < stageWork c.stage)
    (computations : e'.computations = e.computations.set i d)
    (passes : ∀ j, j ≠ k → e'.passes[j]? = e.passes[j]?) (pass : e'.passes[k]? = some p')
    (graph : e'.graph = e.graph) (tasks : p'.tasks = p.tasks) (visited : p'.visited = p.visited)
    (evaluator : p'.evaluator = p.evaluator) (target : p'.target = p.target)
    (resolution : p'.resolution = p.resolution) (result : p'.result = p.result) :
    Underway e' k base stock p' ∧ remaining e' p' < remaining e p := by
  have progress : ∀ u, p'.progress? u = p.progress? u := fun u => by simp only [Pass.progress?, tasks]
  have here : e'.computations[i]? = some d := by
    rw [computations, List.getElem?_set_self (List.getElem?_eq_some_iff.mp hc).1]
  obtain ⟨-, -, waits⟩ := h.own_of_open hc isOpen
  obtain ⟨-, n, -, node, -⟩ := h.sound _ _ waits
  refine ⟨h.sameTable ledger grows (computations ▸ .set hc hcd) passes pass graph tasks visited evaluator target
    resolution, remaining_lt graph result (hasNode_of_node? node) ?_ fun u _ => ?_⟩
  · rw [taskWork_waiting waits hc, taskWork_waiting ((progress _).trans waits) here]
    exact less
  · refine taskWork_le graph (progress u) fun j b hb => ?_
    by_cases hij : j = i
    · subst hij
      obtain rfl := Option.some.inj (hc.symm.trans hb)
      exact ⟨d, here, Nat.le_of_lt less⟩
    · exact ⟨b, computations ▸ getElem?_set_of_ne hij hb, Nat.le_refl _⟩

/-- The pass runs a computation, and records the run. -/
theorem Underway.runs {i : Nat} {c d : Computation} {q : Pass} (lines : List String)
    (hc : e.computations[i]? = some c) (queued : c.stage = .queued) (hq : e.passes[c.pass]? = some q)
    (hcd : c.Later d) (less : stageWork d.stage < 3) (computations : e'.computations = e.computations.set i d)
    (passes : e'.passes = (e.ran c q lines).passes) (graph : e'.graph = e.graph) :
    ∃ p', Underway e' k base stock p' ∧ remaining e' p' < remaining e p := by
  have isOpen := Computation.open_of_queued queued
  obtain ⟨-, rfl, -⟩ := h.own_of_open hc isOpen
  obtain rfl := Option.some.inj (hq.symm.trans h.pass)
  have told : e'.passes[c.pass]? =
      some { q with computed := q.computed ++ [c.node.id], ids := (e.workOf q c).2 } := by
    rw [passes]
    exact List.getElem?_set_self (List.getElem?_eq_some_iff.mp hq).1
  have others : ∀ j, j ≠ c.pass → e'.passes[j]? = e.passes[j]? := by
    intro j hj
    rw [passes]
    exact List.getElem?_set_ne (Ne.symm hj)
  exact ⟨_, h.computes ledger grows hc isOpen hcd (by rw [queued]; exact less) computations others told
    graph rfl rfl rfl rfl rfl rfl⟩

/-- The node waits for a computation, and gets what it has ended with. -/
theorem Underway.receives {i : Nat} {c : Computation} {r : Except Failure Fragment}
    (waiting : p.progress? v = some (.waiting i)) (hc : e.computations[i]? = some c)
    (stage : c.stage = .ended r) (he' : e' = e.setPass k (p.set v (.finished r))) :
    Underway e' k base stock (p.set v (.finished r)) ∧ remaining e' (p.set v (.finished r)) < remaining e p := by
  have s : TaskStep p (p.set v (.finished r)) v (.waiting i) (.finished r) [] :=
    TaskStep.ofSet waiting (fun h => by cases h) (.finished r) []
  have unfinished : ∀ s, Progress.waiting i ≠ .finished s := fun s h => by cases h
  obtain ⟨hi, n, c', node, hc', hnode, complete, gathers⟩ := h.sound v _ waiting
  rw [hc] at hc'
  obtain rfl := Option.some.inj hc'
  obtain ⟨c', hc', -, store, -⟩ := ledger.tasks k p h.pass v _ waiting
  rw [hc] at hc'
  obtain rfl := Option.some.inj hc'
  -- The computation is one of this pass, and so its key is made of the resolution of the pass.
  have key : e.keyOf c = e.keyFor p.resolution n c.inputs := by
    obtain ⟨hpass, -⟩ := h.own i c hc hi
    simp only [keyOf, extentOf, hpass, h.pass, Option.map_some, Option.getD_some, hnode]
  have accounts : e.Accounts base stock p v r :=
    .computed node gathers complete hc key store stage (fun _ => ⟨hnode, rfl⟩)
      fun hlt => absurd hi (Nat.not_le.mpr hlt)
  have onward := ledger.onward h.pass grows (by rw [he']; rfl) s.evaluator s.resolution
    (s.results unfinished) fun u => s.there
  refine ⟨h.taskStep ledger s unfinished (by rw [he']; rfl) (by rw [he']; rfl) grows
    (fun j d hd => .inl ⟨d, by rw [he'] at hd; exact hd, .refl d, rfl⟩) (fun j d hj hd => ?_)
    (onward.accounts accounts) (fun _ h => by cases h) (fun u hu => absurd hu List.not_mem_nil)
    (fun h => by cases h), ?_⟩
  · obtain rfl := Progress.waiting.inj hj
    rw [hc] at hd
    obtain rfl := Option.some.inj hd
    exact ⟨r, stage, rfl⟩
  · refine s.remaining_lt (by rw [he']; rfl) (hasNode_of_node? node)
      (fun j d hd => ⟨d, by rw [he']; exact hd, rfl⟩) ?_
    rw [taskWork_finished s.self, taskWork_waiting waiting hc, stage]
    exact Nat.zero_lt_one

/-- The node takes its inputs side by side, and is about to ask for them. -/
theorem Underway.gathersAll {n : Node} (fresh : p.progress? v = some .fresh)
    (node : e.graph.node? v = some n) (sideBySide : e.settings.concurrentSiblings = true)
    (some_ : e.sortedInputs v ≠ [])
    (he' : e' = e.setPass k
      ((visit p v).set v (.gathering ⟨n.kind, e.sortedInputs v, e.sortedInputs v⟩))) :
    ∃ p', Underway e' k base stock p' ∧ remaining e' p' < remaining e p := by
  generalize hneeds : (⟨n.kind, e.sortedInputs v, e.sortedInputs v⟩ : Gathering) = needs at he'
  have s : TaskStep p ((visit p v).set v (.gathering needs)) v .fresh (.gathering needs) [] :=
    TaskStep.ofVisit fresh (.gathering needs) []
  have sound : e'.Sound base stock ((visit p v).set v (.gathering needs)) v (.gathering needs) := by
    refine ⟨n, by rw [he']; exact node, by rw [← hneeds], by rw [← hneeds, he']; rfl, ?_, fun u hu => ?_⟩
    · rw [grows.settings, sideBySide]
      exact nofun
    · simp only [Awaits, grows.settings, sideBySide, if_true, ← hneeds] at hu
      exact absurd hu.1 some_
  refine ⟨_, h.taskStep ledger s (fun _ => nofun) (by rw [he']; rfl) (by rw [he']; rfl) grows
    (fun j d hd => .inl ⟨d, by rw [he'] at hd; exact hd, .refl d, rfl⟩) (fun _ _ => nofun) sound
    (fun _ => nofun) (fun u hu => absurd hu List.not_mem_nil) nofun, ?_⟩
  refine s.remaining_lt (by rw [he']; rfl) (hasNode_of_node? node)
    (fun j d hd => ⟨d, by rw [he']; exact hd, rfl⟩) ?_
  rw [taskWork_gathering s.self, ← hneeds]
  have few := length_sortedInputs e v
  simp only [taskWork, fresh]
  omega

/-- The node asks for all its sources. -/
theorem Underway.asksAll {needs : Gathering} {sources : List Label}
    (gathering : p.progress? v = some (.gathering needs))
    (sideBySide : e.settings.concurrentSiblings = true) (unasked : needs.pending ≠ [])
    (all : ∀ s, s ∈ sources ↔ ∃ i ∈ needs.inputs, i.2 = s)
    (he' : e' = e.setPass k (sources.foldl Pass.ask (p.set v (.gathering { needs with pending := [] })))) :
    ∃ p', Underway e' k base stock p' ∧ remaining e' p' < remaining e p := by
  obtain ⟨n, node, kind, inputs, -, -⟩ := h.sound v _ gathering
  generalize hasked : ({ needs with pending := [] } : Gathering) = asked at he'
  have hinputs : asked.inputs = needs.inputs := by rw [← hasked]
  have s : TaskStep p (sources.foldl Pass.ask (p.set v (.gathering asked))) v (.gathering needs)
    (.gathering asked) sources := TaskStep.ofSet gathering nofun (.gathering asked) sources
  have feeds : ∀ u ∈ sources, e.graph.Feeds u v := by
    intro u hu
    obtain ⟨i, hi, rfl⟩ := (all u).mp hu
    exact feeds_of_mem (inputs ▸ hi)
  -- Once all are asked for, nothing is pending, and what is awaited are the sources.
  have awaits : ∀ u, e.Awaits asked u ↔ u ∈ sources := by
    intro u
    simp only [Awaits, sideBySide, if_true, all u, ← hasked, true_and]
  have sound : e'.Sound base stock (sources.foldl Pass.ask (p.set v (.gathering asked))) v
      (.gathering asked) := by
    refine ⟨n, by rw [he']; exact node, by rw [← hasked]; exact kind, ?_, ?_, fun u hu => ?_⟩
    · rw [hinputs, inputs, he']
      rfl
    · rw [grows.settings, sideBySide]
      exact nofun
    · have here := (awaits u).mp (hu.congr grows.settings.symm)
      exact ⟨s.asked here, by rw [he']; exact feeds u here⟩
  refine ⟨_, h.taskStep ledger s (fun _ => nofun) (by rw [he']; rfl) (by rw [he']; rfl) grows
    (fun j d hd => .inl ⟨d, by rw [he'] at hd; exact hd, .refl d, rfl⟩) (fun _ _ => nofun) sound
    (fun needs' heq u hu => ?_) (fun u hu => ⟨feeds u hu, asked, rfl, (awaits u).mpr hu⟩) nofun, ?_⟩
  · rw [← Progress.gathering.inj heq] at hu
    simp only [Awaits, sideBySide, if_true] at hu
    exact absurd hu.1 unasked
  · refine s.remaining_lt (by rw [he']; rfl) (hasNode_of_node? node)
      (fun j d hd => ⟨d, by rw [he']; exact hd, rfl⟩) ?_
    rw [taskWork_gathering s.self, taskWork_gathering gathering, ← hasked]
    have := List.length_pos_of_ne_nil unasked
    simp only [List.length_nil]
    omega

/-- The pass is closed. -/
theorem Underway.closes {r : Except Failure Fragment} (unclosed : p.result = none)
    (he' : e' = (e.close k p r).engine) :
    Underway e' k base stock { p with result := some r } ∧
      remaining e' { p with result := some r } < remaining e p := by
  have graph : e'.graph = e.graph := by rw [he']; rfl
  have computations : e'.computations = e.computations := by rw [he']; rfl
  have passes : e'.passes = e.passes.set k { p with result := some r } := by rw [he']; rfl
  constructor
  · refine h.sameTable ledger grows (computations ▸ .refl _) (fun j hj => ?_) ?_ graph rfl rfl rfl rfl rfl
    · rw [passes, List.getElem?_set_ne (Ne.symm hj)]
    · rw [passes, List.getElem?_set_self (List.getElem?_eq_some_iff.mp h.pass).1]
  · have same : ∀ u, taskWork e' { p with result := some r } u = taskWork e p u := by
      intro u
      unfold taskWork
      rw [graph, computations]
      rfl
    unfold remaining
    rw [graph, List.map_congr_left fun u _ => same u, unclosed]
    simp

end Steps

/-- A node that has begun goes on from the pass that has recorded it. -/
theorem goesOn_visit (fresh : p.progress? v = some .fresh) : GoesOn e p (visit p v) v .fresh := by
  refine ⟨.inl fresh, TaskStep.ofVisit fresh, rfl, rfl, rfl, fun _ => nofun,
    fun taken rest socket source split _ _ => ?_, ?_⟩
  · have few := length_sortedInputs e v
    rw [split, List.length_append, List.length_cons] at few
    simp only [taskWork, fresh]
    omega
  · simp only [taskWork, fresh]
    omega

/-- Inputs are taken one by one: those up to the pending one are finished, so that the next to await stands
behind it. -/
theorem TakenIn.length_lt {needs : Gathering} {taken rest : List (Label × Label)} {socket source : Label}
    (takenIn : e.TakenIn p needs) (order : e.settings.concurrentSiblings = false) (pending : needs.pending ≠ [])
    (ready : needs.isReady e.settings.concurrentSiblings p = true)
    (split : needs.inputs = taken ++ (socket, source) :: rest) (unknown : p.result? source = none) :
    rest.length + 1 < needs.pending.length := by
  obtain ⟨before, cut, passed⟩ := takenIn order
  obtain ⟨next, later, hpending⟩ := List.exists_cons_of_ne_nil pending
  have finished : ∀ i ∈ before ++ [next], ∃ r, p.result? i.2 = some r := by
    intro i hi
    rcases List.mem_append.mp hi with hi | hi
    · obtain ⟨r, hr, -⟩ := passed i hi
      exact ⟨r, hr⟩
    · rw [List.mem_singleton.mp hi]
      simp only [Gathering.isReady, order, Bool.false_eq_true, if_false, hpending] at ready
      exact Pass.isFinished_iff.mp ready
  have whole : before ++ [next] ++ later = taken ++ (socket, source) :: rest := by
    rw [List.append_assoc, List.singleton_append, ← hpending, ← cut, split]
  -- The pending input is finished, and all before it, so the unfinished one comes later.
  have behind : before.length < taken.length := by
    by_contra hle
    have there : (before ++ [next] ++ later)[taken.length]? = some (socket, source) := by rw [whole]; simp
    rw [List.getElem?_append_left (by rw [List.length_append]; exact Nat.lt_succ_of_le (Nat.le_of_not_lt hle))]
      at there
    obtain ⟨r, hr⟩ := finished _ (List.mem_of_getElem? there)
    rw [unknown] at hr
    cases hr
  have lengths := congrArg List.length (cut.symm.trans split)
  rw [List.length_append, List.length_append, List.length_cons] at lengths
  omega

/-- A node that was awaiting sources goes on when they are finished. -/
theorem Underway.goesOn_ready (h : Underway e k base stock p) (ledger : Ledger replies draws e)
    {needs : Gathering} (gathering : p.progress? v = some (.gathering needs))
    (ready : needs.isReady e.settings.concurrentSiblings p = true) :
    GoesOn e p p v (.gathering needs) := by
  obtain ⟨n, node, kind, inputs, pending, -⟩ := h.sound v _ gathering
  have takenIn : e.TakenIn p needs := ledger.tasks k p h.pass v _ gathering
  refine ⟨.inr ⟨needs, gathering⟩, TaskStep.ofSet gathering nofun, rfl, rfl, rfl, fun needs' heq u hu => ?_,
    fun taken rest socket source split passed unknown => ?_, ?_⟩
  · obtain rfl := Progress.gathering.inj heq
    unfold Gathering.isReady at ready
    unfold Awaits at hu
    split at ready
    · next sideBySide =>
      rw [if_pos sideBySide] at hu
      obtain ⟨-, i, hi, rfl⟩ := hu
      simp only [Bool.and_eq_true, List.all_eq_true] at ready
      exact Pass.isFinished_iff.mp (ready.2 i hi)
    · next oneByOne =>
      rw [if_neg oneByOne] at hu
      obtain ⟨socket, rest, hu⟩ := hu
      rw [hu] at ready
      exact Pass.isFinished_iff.mp ready
  · rw [taskWork_gathering gathering]
    cases order : e.settings.concurrentSiblings with
    | true =>
      -- side by side all sources are finished, so none is left to await
      simp only [Gathering.isReady, order, if_true, Bool.and_eq_true, List.all_eq_true] at ready
      have here : (socket, source) ∈ needs.inputs := by
        rw [inputs, split]
        exact List.mem_append_right _ List.mem_cons_self
      obtain ⟨r, hr⟩ := Pass.isFinished_iff.mp (ready.2 _ here)
      rw [unknown] at hr
      cases hr
    | false =>
      have behind := takenIn.length_lt order (pending order) ready (inputs.trans split) unknown
      omega
  · rw [taskWork_gathering gathering]
    omega

/-- Every move is one of the pass that runs alone; it keeps the pass underway, with less work left. -/
theorem Underway.move {rank : Label → Nat} (h : Underway e k base stock p) (ledger : Ledger replies draws e)
    (ranked : e.graph.Ranked p.target rank) (stocked : e.Stocked base stock p) (m : Move replies e e') :
    ∃ p', Underway e' k base stock p' ∧ remaining e' p' < remaining e p := by
  obtain ⟨-, -, grows, -⟩ := m.upkeep ledger
  cases m with
  | @absent j q v pass fresh unknown =>
    obtain ⟨rfl, rfl⟩ := h.here pass fresh (fun _ => nofun) fun _ => nofun
    obtain ⟨n, hn⟩ := h.exists_node ranked (by rw [fresh]; exact Option.some_ne_none _)
    rw [unknown] at hn
    cases hn
  | @gathers j q v n pass fresh known sideBySide some_ =>
    obtain ⟨rfl, rfl⟩ := h.here pass fresh (fun _ => nofun) fun _ => nofun
    exact h.gathersAll ledger grows fresh known sideBySide some_ rfl
  | @begins _ j q v n pass fresh known continued =>
    obtain ⟨rfl, rfl⟩ := h.here pass fresh (fun _ => nofun) fun _ => nofun
    exact h.continues ledger grows (goesOn_visit fresh) known stocked continued
  | @launches j q v needs sources pass gathering sideBySide unasked all =>
    obtain ⟨rfl, rfl⟩ := h.here pass gathering (fun _ => nofun) fun needs' heq =>
      .inr ⟨sideBySide, Progress.gathering.inj heq ▸ unasked⟩
    exact h.asksAll ledger grows gathering sideBySide unasked all rfl
  | @proceeds _ j q v needs pass gathering ready continued =>
    obtain ⟨rfl, rfl⟩ := h.here pass gathering (fun _ => nofun) fun needs' heq =>
      .inl (Progress.gathering.inj heq ▸ ready)
    obtain ⟨n, node, kind, inputs, -⟩ := h.sound v _ gathering
    have goesOn := ledger.goesOn pass gathering continued
    rw [kind, inputs] at goesOn
    exact h.continues ledger grows (h.goesOn_ready ledger gathering ready) node stocked goesOn
  | @runsOn i c q request resume lines computation pass queued work =>
    have isOpen := Computation.open_of_queued queued
    exact h.runs ledger grows lines computation queued pass (isOpen.stage (.painting request resume))
      (show 2 < 3 by decide) rfl rfl rfl
  | @runsOut i c q result lines lines' computation pass queued yields =>
    have isOpen := Computation.open_of_queued queued
    exact h.runs ledger grows lines computation queued pass (isOpen.stage (.ended _))
      (show 1 < 3 by decide) rfl rfl rfl
  | @replies i c request resume reply lines computation painted allowed =>
    have isOpen := Computation.open_of_painting painted
    exact ⟨p, h.computes ledger grows computation isOpen (isOpen.stage _)
      (by rw [painted]; exact Nat.lt_succ_self 1) rfl (fun j _ => rfl) h.pass rfl rfl rfl rfl rfl rfl rfl⟩
  | @delivers j q v i c result pass waiting computation stage =>
    obtain ⟨rfl, rfl⟩ := h.here pass waiting (fun _ => nofun) fun _ => nofun
    exact ⟨_, h.receives ledger grows waiting computation stage rfl⟩
  | @closes j q result pass unclosed finished =>
    obtain ⟨rfl, rfl⟩ := h.closes_here pass unclosed finished
    exact ⟨_, h.closes ledger grows unclosed rfl⟩

/-! ## Some step is possible until the pass is closed -/

/-- The back-end has some reply to every request. -/
def AlwaysReplies (replies : Replies) : Prop := ∀ request, ∃ reply, replies request reply

/-- A task that waits can go on, since its computation can. -/
theorem exists_step_waiting {i : Nat} {c : Computation} (total : AlwaysReplies replies)
    (ledger : Ledger replies draws e) (hp : e.passes[k]? = some p)
    (waiting : p.progress? v = some (.waiting i)) (hc : e.computations[i]? = some c) :
    ∃ event turn, e.step event = some turn ∧ event.Allowed replies e := by
  cases hs : c.stage with
  | queued =>
    obtain ⟨q, hq⟩ := ledger.passes i c hc
    refine ⟨.run i, e.run i c q, ?_, trivial⟩
    simp [step, hc, hq, hs]
  | painting request resume =>
    obtain ⟨reply, allowed⟩ := total request
    refine ⟨.paint i reply, e.settle i c (resume reply), ?_, ?_⟩
    · simp [step, hc, hs]
    · intro d request' resume' hd painted
      rw [hc] at hd
      obtain rfl := Option.some.inj hd
      rw [hs] at painted
      obtain ⟨rfl, -⟩ := Stage.painting.inj painted
      exact allowed
  | ended r =>
    refine ⟨.deliver k v, e.finish k p v r, ?_, trivial⟩
    simp [step, hp, waiting, hc, hs]

/-- A task that gathers can go on, unless there is a step to make below one that it awaits. -/
theorem exists_step_gathering {needs : Gathering} (hp : e.passes[k]? = some p)
    (gathering : p.progress? v = some (.gathering needs))
    (pending : e.settings.concurrentSiblings = false → needs.pending ≠ [])
    (below : ∀ u, e.Awaits needs u → p.isFinished u = true ∨
      ∃ event turn, e.step event = some turn ∧ event.Allowed replies e) :
    ∃ event turn, e.step event = some turn ∧ event.Allowed replies e := by
  have proceeds : needs.isReady e.settings.concurrentSiblings p = true →
      ∃ event turn, e.step event = some turn ∧ event.Allowed replies e := by
    intro ready
    refine ⟨.proceed k v, if e.settings.concurrentSiblings then e.conclude k p v needs
      else e.takeIn k p v needs needs.pending, ?_, trivial⟩
    simp only [step, hp, gathering, ready, Option.bind_eq_bind, Option.bind_some, if_true]
    exact (apply_ite some _ _ _).symm
  cases order : e.settings.concurrentSiblings with
  | true =>
    -- Side by side, the task asks for all its sources in one step and proceeds once they all are finished.
    by_cases unasked : needs.pending = []
    · by_cases all : ∀ i ∈ needs.inputs, p.isFinished i.2 = true
      · refine proceeds ?_
        simp only [Gathering.isReady, order, if_true, unasked, List.isEmpty_nil, Bool.true_and, List.all_eq_true]
        exact all
      · push Not at all
        obtain ⟨i, hi, unfinished⟩ := all
        refine (below i.2 ?_).resolve_left unfinished
        simp only [Awaits, order, if_true]
        exact ⟨unasked, i, hi, rfl⟩
    · refine ⟨.launch k v, e.launch k p v needs, ?_, trivial⟩
      simp [step, hp, gathering, order, unasked]
  | false =>
    -- One by one, it proceeds whenever the next of them is finished.
    obtain ⟨next, rest, hpending⟩ := List.exists_cons_of_ne_nil (pending order)
    have awaited : e.Awaits needs next.2 := by
      simp only [Awaits, order, Bool.false_eq_true, if_false]
      exact ⟨next.1, rest, hpending⟩
    rcases below next.2 awaited with done | step
    · refine proceeds ?_
      simp only [Gathering.isReady, order, Bool.false_eq_true, if_false, hpending]
      exact done
    · exact step

/-- Below any task that is not finished there is a step to make. -/
theorem Underway.exists_step_below {rank : Label → Nat} (h : Underway e k base stock p)
    (ledger : Ledger replies draws e) (ranked : e.graph.Ranked p.target rank)
    (total : AlwaysReplies replies) : ∀ n v x, rank v < n → p.progress? v = some x →
    (∀ r, x ≠ .finished r) → ∃ event turn, e.step event = some turn ∧ event.Allowed replies e := by
  intro n
  induction n with
  | zero => intro v x hn; exact absurd hn (Nat.not_lt_zero _)
  | succ n ih =>
    intro v x hn hx unfinished
    have up := h.within v (by rw [hx]; exact Option.some_ne_none x)
    cases x with
    | finished r => exact absurd rfl (unfinished r)
    | fresh =>
      refine ⟨.begin k v, e.begin k p v, ?_, trivial⟩
      simp [step, h.pass, hx]
    | waiting i =>
      obtain ⟨-, node, c, -, hc, -⟩ := h.sound v _ hx
      exact exists_step_waiting total ledger h.pass hx hc
    | gathering needs =>
      obtain ⟨node, -, -, inputs, pending, awaits⟩ := h.sound v _ hx
      -- a source that is awaited is further down
      refine exists_step_gathering h.pass hx pending fun u hu => ?_
      obtain ⟨there, feeds⟩ := awaits u hu
      obtain ⟨y, hy⟩ := Option.ne_none_iff_exists'.mp there
      by_cases done : ∃ r, y = .finished r
      · obtain ⟨r, rfl⟩ := done
        exact .inl (Pass.isFinished_iff.mpr ⟨r, Pass.result?_eq_some.mpr hy⟩)
      · have falls := ranked.falls v up u feeds
        exact .inr (ih u y (by omega) hy fun r hr => done ⟨r, hr⟩)

/-- Some step is possible until the pass is closed. -/
theorem Underway.exists_step {rank : Label → Nat} (h : Underway e k base stock p)
    (ledger : Ledger replies draws e) (ranked : e.graph.Ranked p.target rank)
    (total : AlwaysReplies replies) (unclosed : p.result = none) :
    ∃ event turn, e.step event = some turn ∧ event.Allowed replies e := by
  obtain ⟨x, hx⟩ := Option.ne_none_iff_exists'.mp h.asked
  by_cases done : ∃ r, x = .finished r
  · obtain ⟨r, rfl⟩ := done
    refine ⟨.close k, e.close k p r, ?_, trivial⟩
    simp [step, h.pass, unclosed, Pass.result?_eq_some.mpr hx]
  · exact h.exists_step_below ledger ranked total (rank p.target + 1) p.target x (Nat.lt_succ_self _) hx
      fun r hr => done ⟨r, hr⟩

/-! ## Nothing is left when the target is finished -/

/-- Whoever awaits a node is further up, so that all tasks are finished when the target is. -/
theorem Underway.all_finished {rank : Label → Nat} (h : Underway e k base stock p)
    (ranked : e.graph.Ranked p.target rank) {r : Except Failure Fragment}
    (done : p.result? p.target = some r) : ∀ v x, p.progress? v = some x → ∃ s, x = .finished s := by
  have bounded : ∀ u, e.graph.Upstream u p.target → rank u ≤ rank p.target := by
    intro u path
    induction path using Relation.ReflTransGen.head_induction_on with
    | refl => exact Nat.le_refl _
    | head feeds path ih => exact Nat.le_trans (Nat.le_of_lt (ranked.falls _ path _ feeds)) ih
  -- By induction on how far the rank is below that of the target: an unfinished task is awaited further up.
  have up : ∀ n v x, rank p.target < rank v + n → p.progress? v = some x → ∃ s, x = .finished s := by
    intro n
    induction n with
    | zero =>
      intro v x hn hx
      have := bounded v (h.within v (by rw [hx]; exact Option.some_ne_none x))
      omega
    | succ n ih =>
      intro v x hn hx
      by_contra unfinished
      push Not at unfinished
      rcases h.awaited v x hx unfinished with rfl | ⟨w, needs, hw, awaits⟩
      · rw [Pass.result?_eq_some, hx] at done
        exact unfinished r (Option.some.inj done)
      · obtain ⟨-, -, -, -, -, feeds⟩ := h.sound w _ hw
        have falls := ranked.falls w (h.within w (by rw [hw]; exact Option.some_ne_none _)) v
          (feeds v awaits).2
        obtain ⟨s, hs⟩ := ih w _ (by omega) hw
        cases hs
  intro v x hx
  exact up (rank p.target + 1) v x (by omega) hx

/-- When the pass is closed, nothing can happen any more. -/
theorem Underway.calm {rank : Label → Nat} (h : Underway e k base stock p)
    (ranked : e.graph.Ranked p.target rank) {r : Except Failure Fragment}
    (done : p.result? p.target = some r) (closed : p.result ≠ none) : Calm e := by
  have all := h.all_finished ranked done
  refine ⟨fun j q hq => ?_, fun i c hc => ?_⟩
  · by_cases hj : j = k
    · subst hj
      obtain rfl := Option.some.inj (hq.symm.trans h.pass)
      exact ⟨fun v x hx => .inl (all v x hx), fun unclosed => absurd unclosed closed⟩
    · exact h.others j q hq hj
  · by_cases hi : i < base
    · exact h.old i c hc hi
    · rcases (h.own i c hc (Nat.le_of_not_lt hi)).2 with waiting | ⟨s, hs, -⟩
      · obtain ⟨s, hs⟩ := all _ _ waiting
        cases hs
      · exact ⟨s, hs⟩

/-- A pass that is started where nothing else goes on is underway. -/
theorem Calm.underway {n : Nat} {target : Label} {salt : String} (calm : Calm e)
    (s : Started e n target salt p e') :
    Underway e' e.passes.length e.computations.length stock p := by
  obtain ⟨log, rfl⟩ := s.state
  -- The only task is that of the target, and it is fresh.
  have tasks : ∀ v x, p.progress? v = some x → v = target ∧ x = .fresh := by
    intro v x hx
    simp only [Pass.progress?, s.tasks, List.find?_singleton] at hx
    split at hx
    · next hv => exact ⟨(beq_iff_eq.mp hv).symm, (Option.some.inj hx).symm⟩
    · cases hx
  refine ⟨by simp, fun j q hq hj => ?_, fun i c hc _ => calm.computations i c hc, Nat.le_refl _,
    fun i c hc hi => ?_, fun i j c d hc hd hi hj _ => ?_, by simp [s.tasks], ?_, fun v hv => ?_,
    fun v => ?_, by simp [s.visited], fun v x hx => ?_, fun v x hx _ => ?_⟩
  · rcases getElem?_concat_cases hq with hq | ⟨last, -⟩
    · have still := calm.passes j q hq
      exact ⟨still.tasks, still.closed⟩
    · exact absurd last hj
  · have := (List.getElem?_eq_some_iff.mp hc).1
    exact absurd this (Nat.not_lt.mpr hi)
  · have := (List.getElem?_eq_some_iff.mp hc).1
    exact absurd this (Nat.not_lt.mpr hi)
  · simp [Pass.progress?, s.tasks, s.target]
  · obtain ⟨x, hx⟩ := Option.ne_none_iff_exists'.mp hv
    rw [(tasks v x hx).1, s.target]
  · rw [s.visited]
    simp only [List.not_mem_nil, false_iff, not_exists, not_and, not_not]
    exact fun x hx => (tasks v x hx).2
  · rw [(tasks v x hx).2]
    trivial
  · exact .inl ((tasks v x hx).1.trans s.target.symm)

end VectorGraph.Engine
