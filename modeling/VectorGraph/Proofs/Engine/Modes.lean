import VectorGraph.Proofs.Engine.Missing

/-!
Inputs taken side by side, and inputs taken one by one.

Which nodes a pass gets to is a matter of how it takes the inputs of a node (`Engine.Reached`). Side by side it
gets to everything that the target depends on, whatever fails. One by one it gets past a source that has failed only
if the failure is a fault of the graph. So the two ways agree where no operator fails (`Settled.agree`), and
otherwise they need not agree on the nodes that are visited, nor on the failure (`modes_differ`).
-/
namespace VectorGraph

namespace Pass

variable {p : Pass} {u v : Label}

theorem asked_set (x : Progress) : (p.set v x).progress? u ≠ none ↔ p.progress? u ≠ none := by
  rw [← mem_names_iff, ← mem_names_iff, names_set]

theorem asked_foldl_ask (sources : List Label) :
    (sources.foldl ask p).progress? u ≠ none ↔ u ∈ sources ∨ p.progress? u ≠ none := by
  rw [progress?_foldl_ask]
  by_cases asked : u ∈ sources
  · cases p.progress? u <;> simp [asked]
  · simp [asked]

/-- Of two places in a list one comes first, unless they are the same. -/
theorem mem_or_mem_or_eq {α : Type} {before before' after after' : List α} {x y : α}
    (h : before ++ x :: after = before' ++ y :: after') : x ∈ before' ∨ y ∈ before ∨ x = y := by
  rcases List.append_eq_append_iff.mp h with ⟨between, split, next⟩ | ⟨between, split, next⟩
  · cases between with
    | nil => exact .inr (.inr (List.cons.inj next).1)
    | cons first between =>
      rw [split, (List.cons.inj next).1]
      exact .inl (List.mem_append_right _ List.mem_cons_self)
  · cases between with
    | nil => exact .inr (.inr (List.cons.inj next).1.symm)
    | cons first between =>
      rw [split, (List.cons.inj next).1]
      exact .inr (.inl (List.mem_append_right _ List.mem_cons_self))

/-- Every source among them is finished with what lets a node go on to its next input. -/
def AllPassed (p : Pass) (inputs : List (Label × Label)) : Prop :=
  ∀ i ∈ inputs, ∃ r, p.result? i.2 = some r ∧ Passable r

theorem AllPassed.not_mem {inputs : List (Label × Label)} {socket : Label} {failure : Failure}
    (h : p.AllPassed inputs) (failed : p.result? u = some (.error failure)) (other : failure.isGraphFault = false) :
    (socket, u) ∉ inputs := by
  intro mem
  obtain ⟨r, hr, passable⟩ := h (socket, u) mem
  obtain rfl := Option.some.inj (failed.symm.trans hr)
  rw [passable failure rfl] at other
  cases other

/-- What is gathered has got past every source that can be passed, so that the next one is finished. -/
theorem Gathers.finished_of_passed {sideBySide : Bool} {inputs before after : List (Label × Label)} {socket : Label}
    {got : Except Failure Inputs} (h : p.Gathers sideBySide inputs got)
    (split : inputs = before ++ (socket, u) :: after) (passed : sideBySide = false → p.AllPassed before) :
    p.result? u ≠ none := by
  cases h with
  | all finished =>
    obtain ⟨r, hr, -⟩ := finished (socket, u) (by rw [split]; exact List.mem_append_right _ List.mem_cons_self)
    rw [hr]
    exact Option.some_ne_none r
  | early oneByOne split' takenIn failed other =>
    rcases mem_or_mem_or_eq (split.symm.trans split') with earlier | later | same
    · obtain ⟨r, hr, -⟩ := takenIn _ earlier
      rw [hr]
      exact Option.some_ne_none r
    · exact absurd later ((passed oneByOne).not_mem failed other)
    · rw [(Prod.mk.inj same).2, failed]
      exact Option.some_ne_none _

/-- What inputs come to is settled once and for all. -/
theorem Gathers.unique {sideBySide : Bool} {inputs : List (Label × Label)} {got got' : Except Failure Inputs}
    (h : p.Gathers sideBySide inputs got) (h' : p.Gathers sideBySide inputs got') : got = got' := by
  -- where all inputs are taken in, none has stopped the node
  have clash : ∀ {taken rest : List (Label × Label)} {socket source : Label} {failure : Failure},
      (∀ i ∈ inputs, ∃ r, p.result? i.2 = some r ∧ (sideBySide = false → Passable r)) →
      sideBySide = false → inputs = taken ++ (socket, source) :: rest →
      p.result? source = some (.error failure) → failure.isGraphFault = false → False := by
    intro taken rest socket source failure finished oneByOne split failed other
    have passed : p.AllPassed inputs := fun i hi => by
      obtain ⟨r, hr, passable⟩ := finished i hi
      exact ⟨r, hr, passable oneByOne⟩
    have mem : (socket, source) ∈ inputs := by
      rw [split]
      exact List.mem_append_right taken List.mem_cons_self
    exact passed.not_mem failed other mem
  cases h with
  | all finished =>
    cases h' with
    | all _ => rfl
    | early oneByOne split passed failed other => exact (clash finished oneByOne split failed other).elim
  | early oneByOne split passed failed other =>
    cases h' with
    | all finished => exact (clash finished oneByOne split failed other).elim
    | early _ split' passed' failed' other' =>
      rcases mem_or_mem_or_eq (split.symm.trans split') with earlier | later | same
      · exact absurd earlier (AllPassed.not_mem passed' failed other)
      · exact absurd later (AllPassed.not_mem passed failed' other')
      · rw [(Prod.mk.inj same).2, failed'] at failed
        rw [Except.error.inj (Option.some.inj failed)]

/-- Side by side the failure of the first source counts, when all of them are finished. -/
theorem Gathers.of_first {rest : List (Label × Label)} {socket : Label} {failure : Failure}
    (failed : p.result? u = some (.error failure)) (finished : ∀ i ∈ rest, ∃ r, p.result? i.2 = some r) :
    p.Gathers true ((socket, u) :: rest) (.error failure) := by
  have collected : p.collect ((socket, u) :: rest) = .error failure := by
    rw [collect_cons]
    dsimp only
    rw [failed]
  refine collected ▸ .all fun i hi => ?_
  rcases List.mem_cons.mp hi with rfl | later
  · exact ⟨_, failed, nofun⟩
  · obtain ⟨r, hr⟩ := finished i later
    exact ⟨r, hr, nofun⟩

end Pass

namespace Engine

variable {e e' : Engine} {replies : Replies} {draws draws' : Draws} {k base : Nat}
  {stock : List (CacheKey × Fragment)} {p p' q : Pass} {first : IdSource} {u v : Label}

/-! ## What a pass gets to -/

/-- The sources that stand before one among the inputs of a node let the pass go on to it. -/
def LetsPass (e : Engine) (p : Pass) (before : List (Label × Label)) : Prop :=
  e.settings.concurrentSiblings = false → p.AllPassed before

/-- The pass gets to the target, and from a node to each source that it is let pass to. -/
inductive Reached (e : Engine) (p : Pass) : Label → Prop where
  | target : Reached e p p.target
  | source {v socket u : Label} {before after : List (Label × Label)} (node : Reached e p v)
      (inputs : e.sortedInputs v = before ++ (socket, u) :: after) (passed : e.LetsPass p before) :
      Reached e p u

theorem LetsPass.mono {before : List (Label × Label)} (h : e.LetsPass p before)
    (settings : e'.settings = e.settings) (kept : Pass.ResultsKept p p') : e'.LetsPass p' before := by
  intro oneByOne i hi
  obtain ⟨r, hr, passable⟩ := h (settings ▸ oneByOne) i hi
  exact ⟨r, kept _ r hr, passable⟩

theorem Reached.mono (h : e.Reached p v) (settings : e'.settings = e.settings) (graph : e'.graph = e.graph)
    (target : p'.target = p.target) (kept : Pass.ResultsKept p p') : e'.Reached p' v := by
  induction h with
  | target =>
    rw [← target]
    exact .target
  | source _ inputs passed ih =>
    exact .source ih (by rw [sortedInputs_congr graph, inputs]) (passed.mono settings kept)

theorem Reached.upstream (h : e.Reached p v) : e.graph.Upstream v p.target := by
  induction h with
  | target => exact .refl
  | @source v socket u before after _ inputs _ ih =>
    have mem : (socket, u) ∈ e.sortedInputs v := by
      rw [inputs]
      exact List.mem_append_right before List.mem_cons_self
    exact .head (feeds_of_mem mem) ih

/-- Side by side a pass gets from a node to all its sources. -/
theorem Reached.of_mem (sideBySide : e.settings.concurrentSiblings = true) (node : e.Reached p v)
    {i : Label × Label} (hi : i ∈ e.sortedInputs v) : e.Reached p i.2 := by
  obtain ⟨before, after, inputs⟩ := List.append_of_mem hi
  refine .source node inputs fun oneByOne => ?_
  rw [sideBySide] at oneByOne
  cases oneByOne

/-- A pass gets from a node to the first source in any case. -/
theorem Reached.of_first {socket : Label} {after : List (Label × Label)} (node : e.Reached p v)
    (inputs : e.sortedInputs v = (socket, u) :: after) : e.Reached p u :=
  .source node (inputs.trans (List.nil_append _).symm) fun _ _ hi => absurd hi List.not_mem_nil

/-- Side by side a pass gets to everything that its target depends on. -/
theorem reached_iff_upstream (sideBySide : e.settings.concurrentSiblings = true) :
    e.Reached p v ↔ e.graph.Upstream v p.target := by
  refine ⟨Reached.upstream, fun up => ?_⟩
  induction up using Relation.ReflTransGen.head_induction_on with
  | refl => exact .target
  | head feeds _ ih =>
    obtain ⟨i, hi, rfl⟩ := exists_input feeds
    exact ih.of_mem sideBySide hi

/-- A node is asked for that had not been, from a node that had been. -/
def AsksFrom (e : Engine) (p : Pass) (u : Label) : Prop :=
  ∃ v before socket after, p.progress? v ≠ none ∧ e.sortedInputs v = before ++ (socket, u) :: after ∧
    e.LetsPass p before

/-- A node that goes on asks for a source to which it is let pass, or for none. -/
theorem Continues.asks {inputs : List (Label × Label)} {kind : Kind}
    (continued : Continues e k q v kind inputs e') :
    ∃ q', e'.passes = e.passes.set k q' ∧ ∀ u, q'.progress? u ≠ none → q.progress? u ≠ none ∨
      ∃ before socket after, inputs = before ++ (socket, u) :: after ∧ e.LetsPass q before := by
  cases continued with
  | fails gathered => exact ⟨_, rfl, fun u there => .inl ((Pass.asked_set _).mp there)⟩
  | misses gathered missing => exact ⟨_, rfl, fun u there => .inl ((Pass.asked_set _).mp there)⟩
  | looks gathered complete looked =>
    cases looked with
    | found entry => exact ⟨_, rfl, fun u there => .inl ((Pass.asked_set _).mp there)⟩
    | joined missing running shared => exact ⟨_, rfl, fun u there => .inl ((Pass.asked_set _).mp there)⟩
    | started missing idle => exact ⟨_, rfl, fun u there => .inl ((Pass.asked_set _).mp there)⟩
  | @awaits taken rest socket source oneByOne split passed open_ =>
    refine ⟨_, rfl, fun u there => ?_⟩
    rcases (Pass.asked_foldl_ask [source]).mp there with asked | old
    · rw [List.mem_singleton] at asked
      subst asked
      exact .inr ⟨taken, socket, rest, split, fun _ => passed⟩
    · exact .inl ((Pass.asked_set _).mp old)

/-- Whatever a pass asks for, it is let pass to from a node that it has got to. -/
theorem Underway.asks (h : Underway e k base stock p) (ledger : Ledger replies draws e)
    (m : Move replies e e') (hp' : e'.passes[k]? = some p') (there : p'.progress? u ≠ none) :
    p.progress? u ≠ none ∨ e.AsksFrom p u := by
  -- a move sets one pass at most
  have set : ∀ {j : Nat} {q q' : Pass}, e.passes[j]? = some q → e'.passes = e.passes.set j q' →
      (j = k → q = p → q'.progress? u ≠ none → p.progress? u ≠ none ∨ e.AsksFrom p u) →
      p.progress? u ≠ none ∨ e.AsksFrom p u := by
    intro j q q' hq passes asks
    rw [passes] at hp'
    rcases getElem?_set_cases hp' with ⟨rfl, rfl⟩ | ⟨-, hp'⟩
    · exact asks rfl (Option.some.inj (hq.symm.trans h.pass)) there
    · obtain rfl := Option.some.inj (h.pass.symm.trans hp')
      exact .inl there
  cases m with
  | absent pass fresh unknown =>
    refine set pass rfl ?_
    rintro rfl rfl asked
    exact .inl ((Pass.asked_set _).mp asked)
  | gathers pass fresh known sideBySide some_ =>
    refine set pass rfl ?_
    rintro rfl rfl asked
    exact .inl ((Pass.asked_set _).mp asked)
  | @begins _ j q v n pass fresh known continued =>
    obtain ⟨q', passes, asks⟩ := continued.asks
    refine set pass passes ?_
    rintro rfl rfl asked
    rcases asks u asked with old | ⟨before, socket, after, inputs, passed⟩
    · exact .inl old
    · exact .inr ⟨v, before, socket, after, by rw [fresh]; exact Option.some_ne_none _, inputs, passed⟩
  | @launches j q v needs sources pass gathering sideBySide unasked all =>
    refine set pass rfl ?_
    rintro rfl rfl asked
    rcases (Pass.asked_foldl_ask sources).mp asked with new | old
    · obtain ⟨n, -, -, sorted, -⟩ := h.sound v _ gathering
      obtain ⟨i, hi, rfl⟩ := (all u).mp new
      obtain ⟨before, after, inputs⟩ := List.append_of_mem (sorted ▸ hi)
      refine .inr ⟨v, before, i.1, after, by rw [gathering]; exact Option.some_ne_none _, inputs,
        fun oneByOne => ?_⟩
      rw [sideBySide] at oneByOne
      cases oneByOne
    · exact .inl ((Pass.asked_set _).mp old)
  | @proceeds _ j q v needs pass gathering ready continued =>
    obtain ⟨q', passes, asks⟩ := (ledger.goesOn pass gathering continued).asks
    refine set pass passes ?_
    rintro rfl rfl asked
    obtain ⟨n, -, -, sorted, -⟩ := h.sound v _ gathering
    rcases asks u asked with old | ⟨before, socket, after, inputs, passed⟩
    · exact .inl old
    · exact .inr ⟨v, before, socket, after, by rw [gathering]; exact Option.some_ne_none _,
        sorted ▸ inputs, passed⟩
  | runsOn computation pass queued work => exact set pass rfl fun _ same asked => .inl (same ▸ asked)
  | runsOut computation pass queued yields => exact set pass rfl fun _ same asked => .inl (same ▸ asked)
  | replies computation painted allowed =>
    obtain rfl := Option.some.inj (h.pass.symm.trans hp')
    exact .inl there
  | delivers pass waiting computation stage =>
    refine set pass rfl ?_
    rintro rfl rfl asked
    exact .inl ((Pass.asked_set _).mp asked)
  | closes pass unclosed finished => exact set pass rfl fun _ same asked => .inl (same ▸ asked)

theorem Accounts.exists_gathers {r : Except Failure Fragment} (h : e.Accounts base stock p v r) :
    ∃ got, p.Gathers e.settings.concurrentSiblings (e.sortedInputs v) got := by
  cases h with
  | gathered _ gathers => exact ⟨_, gathers⟩
  | missed _ gathers => exact ⟨_, gathers⟩
  | computed _ gathers => exact ⟨_, gathers⟩

/-- What a pass that runs alone has asked for and started: it has asked for what it gets to, and each of its
computations is for a node whose inputs are complete. -/
structure Charted (e : Engine) (base : Nat) (p : Pass) : Prop where
  asked : ∀ u, p.progress? u ≠ none → e.Reached p u
  fed : ∀ (i : Nat) (c : Computation), base ≤ i → e.computations[i]? = some c →
    e.graph.node? c.node.id = some c.node ∧
    c.node.kind.requiredSockets.find? (fun s => !c.inputs.any (·.1 == s)) = none ∧
    p.Gathers e.settings.concurrentSiblings (e.sortedInputs c.node.id) (.ok c.inputs)

/-- Only a pass that goes on starts a computation, and it waits for it. -/
theorem SoloMove.fed_of_new (h : SoloMove replies k base stock draws p e draws' p' e') {i : Nat} {d : Computation}
    (old : e.computations[i]? = none) (new : e'.computations[i]? = some d) :
    e'.graph.node? d.node.id = some d.node ∧
    d.node.kind.requiredSockets.find? (fun s => !d.inputs.any (·.1 == s)) = none ∧
    p'.Gathers e'.settings.concurrentSiblings (e'.sortedInputs d.node.id) (.ok d.inputs) := by
  have queued : d.stage = .queued := by
    cases h.runs with
    | none unrun => exact unrun.new i d old new
    | one _ _ _ _ computations =>
      have long := (List.getElem?_eq_some_iff.mp new).1
      rw [computations, List.length_set] at long
      exact absurd (List.getElem?_eq_none_iff.mp old) (Nat.not_le.mpr long)
  obtain ⟨-, n, c, node, hc, same, complete, gathers⟩ :=
    h.after.underway.sound _ _ (h.after.waiting_of_queued new queued)
  obtain rfl := Option.some.inj (new.symm.trans hc)
  subst same
  exact ⟨node, complete, gathers⟩

theorem SoloMove.charted (h : SoloMove replies k base stock draws p e draws' p' e') (charted : e.Charted base p) :
    e'.Charted base p' := by
  have carry : ∀ {v}, e.Reached p v → e'.Reached p' v := fun reached =>
    reached.mono h.grows.settings h.graph h.later.target h.later.results
  refine ⟨fun u there => ?_, fun i d low hd => ?_⟩
  · rcases h.before.underway.asks h.before.ledger h.move h.after.underway.pass there with
      old | ⟨v, before, socket, after, node, inputs, passed⟩
    · exact carry (charted.asked u old)
    · exact .source (carry (charted.asked v node)) (by rw [sortedInputs_congr h.graph, inputs])
        (passed.mono h.grows.settings h.later.results)
  · cases hc : e.computations[i]? with
    | none => exact h.fed_of_new hc hd
    | some c =>
      obtain ⟨d', hd', hcd⟩ := h.grows.computations i c hc
      obtain rfl := Option.some.inj (hd.symm.trans hd')
      obtain ⟨node, complete, gathers⟩ := charted.fed i c low hc
      rw [hcd.node, hcd.inputs, h.graph, h.grows.settings, sortedInputs_congr h.graph]
      exact ⟨node, complete, gathers.mono h.later.results⟩

/-! ## What a closed pass has visited and computed -/

/-- What a closed pass has visited and computed, whatever has failed. -/
structure Covers (e : Engine) (p : Pass) : Prop where
  visited : ∀ v, v ∈ p.visited ↔ e.Reached p v
  /-- The operators have run of the nodes that lack nothing and whose sources have all yielded a fragment. -/
  computed : ∀ v, v ∈ p.computed ↔ e.Reached p v ∧ e.graph.openSocket? v = none ∧
    ∀ i ∈ e.sortedInputs v, ∃ f, p.result? i.2 = some (.ok f)

namespace Solo

variable (h : Solo replies draws k base [] p e) (closed : p.result ≠ none) (charted : e.Charted base p)

include h closed charted

theorem visited_iff_reached : v ∈ p.visited ↔ e.Reached p v := by
  rw [h.visited_iff closed]
  constructor
  · intro finished
    obtain ⟨r, hr⟩ := Option.ne_none_iff_exists'.mp finished
    apply charted.asked v
    rw [Pass.result?_eq_some.mp hr]
    exact Option.some_ne_none _
  · intro reached
    induction reached with
    | target =>
      obtain ⟨r, hr⟩ := Option.ne_none_iff_exists'.mp closed
      rw [(h.told r hr).1]
      exact Option.some_ne_none r
    | source _ inputs passed ih =>
      obtain ⟨r, hr⟩ := Option.ne_none_iff_exists'.mp ih
      obtain ⟨got, gathers⟩ := (h.underway.sound _ _ (Pass.result?_eq_some.mp hr)).exists_gathers
      exact gathers.finished_of_passed inputs passed

theorem covers {runs : List Nat} (rec_ : Recorded e draws base first p runs) : e.Covers p := by
  have visited : ∀ v, v ∈ p.visited ↔ e.Reached p v := fun v => h.visited_iff_reached closed charted
  refine ⟨visited, fun v => ?_⟩
  rw [h.mem_computed closed rec_, ← visited v, h.visited_iff closed]
  constructor
  · rintro ⟨i, c, low, hc, rfl⟩
    obtain ⟨r, -, done⟩ := h.result_of_computation closed low hc
    obtain ⟨node, complete, gathers⟩ := charted.fed i c low hc
    refine ⟨by rw [done]; exact Option.some_ne_none r, (openSocket?_eq node gathers).trans complete, fun i hi => ?_⟩
    obtain ⟨f, -, hf⟩ := gathers.exists_input hi
    exact ⟨f, hf⟩
  · rintro ⟨finished, lacks, sources⟩
    obtain ⟨r, hr⟩ := Option.ne_none_iff_exists'.mp finished
    cases h.underway.sound v _ (Pass.result?_eq_some.mp hr) with
    | gathered result gathers =>
      obtain ⟨i, hi, failed⟩ := gathers.exists_failed
      obtain ⟨f, hf⟩ := sources i hi
      rw [failed] at hf
      cases hf
    | missed node gathers missing result =>
      rw [openSocket?_eq node gathers, missing] at lacks
      cases lacks
    | @computed n got i c node gathers complete computation key store stage own old =>
      have low := base_le_of_nothing_stored old
      obtain ⟨rfl, -⟩ := own low
      exact ⟨i, c, low, computation, Graph.node?_id node⟩

end Solo

/-- A pass that has just been started has asked for its target. -/
theorem Started.charted {n : Nat} {target : Label} {salt : String} (s : Started e n target salt p e') :
    e'.Charted e.computations.length p := by
  obtain ⟨log, rfl⟩ := s.state
  refine ⟨fun u there => ?_, fun i c low hc => ?_⟩
  · have named : u ∈ p.tasks.map (·.1) := Pass.mem_names_iff.mpr there
    rw [s.tasks] at named
    obtain rfl : u = p.target := (List.mem_singleton.mp named).trans s.target.symm
    exact .target
  · exact absurd (List.getElem?_eq_some_iff.mp hc).1 (Nat.not_lt.mpr low)

/-- A pass is started where nothing else goes on and its cache holds nothing. Whatever order its steps are made in,
when it is closed it has visited what it gets to, and run the operators there whose inputs are complete. Side by side
it has got to the target and all that the target depends on, whatever has failed. -/
theorem covers_reached {u : Usage} {settings : Settings} {canRender : Bool} {digest : Digest} {n : Nat}
    {target : Label} {resolution : Json} {r : Extent} (salt : String)
    (run : Reaches u (blank settings canRender digest) e) (rest : ∀ event, e.step event = none)
    (there : n < e.evaluators.length) (empty : (e.cacheOf n).entries = []) (total : AlwaysReplies u.replies)
    (positive : resolutionOf resolution = .ok r) (acyclic : e.graph.checkAcyclic target = .ok ()) :
    ∃ turn, e.start n target resolution salt = .ok turn ∧
      ∀ m e', Steps u.replies m turn.engine e' → e'.graph = e.graph ∧ e'.settings = settings ∧
        ∃ draws p, Solo u.replies draws e.passes.length e.computations.length [] p e' ∧ p.target = target ∧
          (p.result ≠ none → e'.Covers p ∧
            (settings.concurrentSiblings = true → ∀ v, v ∈ p.visited ↔ v = target ∨ v ∈ e.graph.ancestors target)) := by
  obtain ⟨turn, started, _, all⟩ := runs_alone (n := n) salt run rest there empty total positive acyclic
  refine ⟨turn, started, fun m e' steps => ?_⟩
  obtain ⟨-, graph, settings', -, draws, p, runs, solo, recorded, -, target', -⟩ := all m e' steps
  refine ⟨graph, settings', draws, p, solo, target', fun closed => ?_⟩
  -- the chart of the pass, from its start on
  obtain ⟨draws₀, ledger, -⟩ := run.ledger (blank_ledger u.replies settings canRender digest fun _ => default)
  obtain ⟨p₀, -, s⟩ := started_of_start started
  have first := (ledger.calm_of_rest total rest).solo ledger there s
  rw [empty] at first
  obtain ⟨draws', q, solo', charted, -⟩ :=
    first.along (P := fun _ p e => e.Charted _ p) s.charted (fun move _ _ => move.charted) steps
  obtain rfl := Option.some.inj (solo'.underway.pass.symm.trans solo.underway.pass)
  have covers := solo.covers closed charted recorded
  refine ⟨covers, fun sideBySide v => ?_⟩
  rw [covers.visited v, reached_iff_upstream (settings' ▸ sideBySide), target', graph, Graph.upstream_iff]

/-- A pass that runs alone can be run to its end. -/
theorem Solo.exists_closed {e₀ : Engine} (total : AlwaysReplies replies) {m : Nat} (before : Steps replies m e₀ e)
    (h : Solo replies draws k base stock p e) :
    ∃ m e' draws' p', Steps replies m e₀ e' ∧ Solo replies draws' k base stock p' e' ∧ p'.result ≠ none := by
  -- each step takes some of the work that remains
  induction work : remaining e p using Nat.strong_induction_on generalizing e p draws m with
  | _ n ih =>
    by_cases closed : p.result = none
    · obtain ⟨event, turn, step, allowed⟩ := h.exists_step total closed
      obtain ⟨draws', p', solo, less, -⟩ := h.move (move_of_step step allowed)
      exact ih _ (work ▸ less) (before.more step allowed) solo rfl
    · exact ⟨m, e, draws, p, before, h, closed⟩

/-! ## Where the two ways agree -/

theorem Blames.congr {e₁ e₂ : Engine} {w : Label} (graph : e₁.graph = e₂.graph) (h : e₁.Blames v w) :
    e₂.Blames v w := by
  have same : ∀ v, e₂.blockedSource? v = e₁.blockedSource? v := fun v => by
    rw [blockedSource?, blockedSource?, sortedInputs_congr graph.symm, graph]
  induction h with
  | here last => exact .here ((same _).trans last)
  | source next _ ih => exact .source ((same _).trans next) ih

/-- Two passes for one target in which no operator failed have visited the same nodes and run the same operators,
and both yield a fragment or both report the same missing input, in whichever way each has taken its inputs. -/
theorem Settled.agree {e₁ e₂ : Engine} {p₁ p₂ : Pass} (h₁ : e₁.Settled p₁) (h₂ : e₂.Settled p₂)
    (graph : e₁.graph = e₂.graph) (target : p₁.target = p₂.target) :
    (∀ v, v ∈ p₁.visited ↔ v ∈ p₂.visited) ∧ (∀ v, v ∈ p₁.computed ↔ v ∈ p₂.computed) ∧
      ((∃ f g, p₁.result = some (.ok f) ∧ p₂.result = some (.ok g)) ∨
        ∃ failure, p₁.result = some (.error failure) ∧ p₂.result = some (.error failure)) := by
  have visited : ∀ v, v ∈ p₁.visited ↔ v ∈ p₂.visited := fun v => by
    rw [h₁.visited, h₂.visited, graph, target]
  refine ⟨visited, fun v => ?_, ?_⟩
  · rw [h₁.computed, h₂.computed, visited, graph]
  · by_cases blocked : e₁.graph.Blocked p₁.target
    · obtain ⟨w, socket, blames, lacks, result⟩ := h₁.reports blocked
      obtain ⟨w', socket', blames', lacks', result'⟩ := h₂.reports (graph ▸ target ▸ blocked)
      obtain rfl := (target ▸ blames.congr graph).unique blames'
      rw [← graph, lacks] at lacks'
      obtain rfl := Option.some.inj lacks'
      exact .inr ⟨_, result, result'⟩
    · obtain ⟨f, result⟩ := h₁.succeeds blocked
      obtain ⟨g, result'⟩ := h₂.succeeds (graph ▸ target ▸ blocked)
      exact .inl ⟨f, g, result, result'⟩

/-! ## What a node comes to -/

namespace Solo

section Result

variable (h : Solo replies draws k base [] p e) {r : Except Failure Fragment} (done : p.result? v = some r)
  {n : Node} {got : Inputs} {failure : Failure} {socket : String}

include h done

/-- A node whose inputs cannot be gathered hands on the failure. -/
theorem result_of_failed (gathers : p.Gathers e.settings.concurrentSiblings (e.sortedInputs v) (.error failure)) :
    r = .error failure := by
  cases h.underway.sound v _ (Pass.result?_eq_some.mp done) with
  | gathered result gathers' =>
    rw [result, Except.error.inj (gathers.unique gathers')]
  | missed _ gathers' => cases gathers.unique gathers'
  | computed _ gathers' => cases gathers.unique gathers'

/-- A node that lacks a required input reports the first one. -/
theorem result_of_lacks (node : e.graph.node? v = some n)
    (gathers : p.Gathers e.settings.concurrentSiblings (e.sortedInputs v) (.ok got))
    (lacks : n.kind.requiredSockets.find? (fun s => !got.any (·.1 == s)) = some socket) :
    r = .error (.graph (.missingInput v socket)) := by
  cases h.underway.sound v _ (Pass.result?_eq_some.mp done) with
  | gathered _ gathers' => cases gathers.unique gathers'
  | missed node' gathers' missing result =>
    obtain rfl := Option.some.inj (node.symm.trans node')
    obtain rfl := Except.ok.inj (gathers.unique gathers')
    obtain rfl := Option.some.inj (lacks.symm.trans missing)
    exact result
  | computed node' gathers' complete =>
    obtain rfl := Option.some.inj (node.symm.trans node')
    obtain rfl := Except.ok.inj (gathers.unique gathers')
    rw [complete] at lacks
    cases lacks

/-- A node whose operator fails, with whatever ids, fails as the operator does. -/
theorem result_of_raises (capacity : 0 ≤ e.settings.maxCacheEntries) (node : e.graph.node? v = some n)
    (gathers : p.Gathers e.settings.concurrentSiblings (e.sortedInputs v) (.ok got))
    (complete : n.kind.requiredSockets.find? (fun s => !got.any (·.1 == s)) = none)
    (raises : ∀ resolution ids, (n.perform e.settings e.canRender resolution got ids).1 = .error failure) :
    r = .error failure := by
  cases h.underway.sound v _ (Pass.result?_eq_some.mp done) with
  | gathered _ gathers' => cases gathers.unique gathers'
  | missed node' gathers' missing =>
    obtain rfl := Option.some.inj (node.symm.trans node')
    obtain rfl := Except.ok.inj (gathers.unique gathers')
    rw [complete] at missing
    cases missing
  | @computed n' got' i c node' gathers' _ computation key store stage own old =>
    obtain rfl := Option.some.inj (node.symm.trans node')
    obtain rfl := Except.ok.inj (gathers.unique gathers')
    have low := base_le_of_nothing_stored old
    obtain ⟨rfl, rfl⟩ := own low
    cases h.ledger.works i c computation with
    | queued queued => rw [stage] at queued; cases queued
    | painting painting => rw [stage] at painting; cases painting
    | ended ended yields _ accepted =>
      rw [stage] at ended
      obtain rfl := Stage.ended.inj ended
      rw [runOf, raises] at yields
      rw [accepted capacity]
      exact yields

end Result

end Solo

/-! ## Where they do not agree -/

/-- A colour is refused whose red is an integer beyond the doubles. -/
theorem color_refused {id : Label} {red : Int} (beyond : doubleOfInt red = none) (settings : Settings)
    (canRender : Bool) (resolution : Extent) (ids : IdSource) :
    ((⟨id, .color, [("r", .whole red)]⟩ : Node).perform settings canRender resolution [] ids).1 = .error .tooLarge := by
  have refused : Json.finite? (.whole red) = .error .tooLarge := by
    simp only [Json.finite?, Json.scalar?, Outline.isFinite, Scalar.toFloat?, beyond]
    rfl
  have read : Params.Color.r.read [("r", .whole red)] = .error .tooLarge := by
    show Except.bind (Except.bind (Json.finite? (.whole red)) _) _ = _
    rw [refused]
    rfl
  simp only [Node.perform, Kind.operator, Operator.color, read]
  rfl

/-- The union of a colour `c` with a union `q`, whose first input lacks its own input and whose second input is a
colour that is refused. -/
def tangledGraph : Graph where
  nodes := [⟨.text "p", .union, []⟩, ⟨.text "q", .union, []⟩, ⟨.text "m", .union, []⟩,
    ⟨.text "x", .color, [("r", .whole (10 ^ 400))]⟩, ⟨.text "c", .color, []⟩]
  edges := [⟨.text "q", .text "out", .text "p", .text "a"⟩, ⟨.text "c", .text "out", .text "p", .text "b"⟩,
    ⟨.text "m", .text "out", .text "q", .text "a"⟩, ⟨.text "x", .text "out", .text "q", .text "b"⟩]

def tangled (sideBySide : Bool) : Engine :=
  { (blank { concurrentSiblings := sideBySide } false fun _ => "").addEvaluator none with graph := tangledGraph }

theorem tangled_inputs (graph : e.graph = tangledGraph) :
    e.sortedInputs (.text "p") = [(.text "a", .text "q"), (.text "b", .text "c")] ∧
    e.sortedInputs (.text "q") = [(.text "a", .text "m"), (.text "b", .text "x")] ∧
    e.sortedInputs (.text "m") = [] ∧ e.sortedInputs (.text "x") = [] := by
  have p : tangledGraph.inputsOf (.text "p") = [(.text "a", .text "q"), (.text "b", .text "c")] := by decide +kernel
  have q : tangledGraph.inputsOf (.text "q") = [(.text "a", .text "m"), (.text "b", .text "x")] := by decide +kernel
  have m : tangledGraph.inputsOf (.text "m") = [] := by decide +kernel
  have x : tangledGraph.inputsOf (.text "x") = [] := by decide +kernel
  simp only [sortedInputs, graph, p, q, m, x, List.mergeSort_nil, and_true]
  exact ⟨List.mergeSort_of_pairwise (by decide +kernel), List.mergeSort_of_pairwise (by decide +kernel)⟩

/-- What `m` and `x` come to does not depend on the way in which inputs are taken. -/
theorem tangled_leaves (graph : e.graph = tangledGraph) (capacity : 0 ≤ e.settings.maxCacheEntries)
    (h : Solo replies draws k base [] p e) {r : Except Failure Fragment} :
    (p.result? (.text "m") = some r → r = .error (.graph (.missingInput (.text "m") "a"))) ∧
    (p.result? (.text "x") = some r → r = .error .tooLarge) := by
  obtain ⟨-, -, m, x⟩ := tangled_inputs graph
  have nothing : p.Gathers e.settings.concurrentSiblings [] (.ok []) := .all (fun _ hi => absurd hi List.not_mem_nil)
  constructor
  · intro done
    refine h.result_of_lacks done (n := ⟨.text "m", .union, []⟩) ?_ (m ▸ nothing) rfl
    rw [graph]
    rfl
  · intro done
    have beyond : doubleOfInt (10 ^ 400) = none := by
      rw [← Option.isNone_iff_eq_none]
      decide +kernel
    refine h.result_of_raises done capacity (n := ⟨.text "x", .color, [("r", .whole (10 ^ 400))]⟩) ?_ (x ▸ nothing) rfl
      fun resolution ids => color_refused beyond _ _ resolution ids
    rw [graph]
    rfl

section Tangled

variable (graph : e.graph = tangledGraph) (capacity : 0 ≤ e.settings.maxCacheEntries)
  (h : Solo replies draws k base [] p e) (closed : p.result ≠ none) (covers : e.Covers p)
  (target : p.target = .text "p")

include h closed covers

theorem finished_of_reached (reached : e.Reached p v) : ∃ r, p.result? v = some r :=
  Option.ne_none_iff_exists'.mp ((h.visited_iff closed).mp ((covers.visited v).mpr reached))

include graph capacity target

/-- Side by side the pass gets to `c`, and `p` reports what `m` lacks. -/
theorem tangled_side_by_side (sideBySide : e.settings.concurrentSiblings = true) :
    p.result = some (.error (.graph (.missingInput (.text "m") "a"))) ∧ .text "c" ∈ p.visited := by
  obtain ⟨inputsP, inputsQ, -, -⟩ := tangled_inputs graph
  have reachedP : e.Reached p (.text "p") := target ▸ .target
  have reachedQ : e.Reached p (.text "q") := reachedP.of_first inputsP
  have reachedC : e.Reached p (.text "c") :=
    reachedP.of_mem sideBySide (i := (.text "b", .text "c")) (by simp [inputsP])
  have reachedX : e.Reached p (.text "x") :=
    reachedQ.of_mem sideBySide (i := (.text "b", .text "x")) (by simp [inputsQ])
  obtain ⟨m, doneM⟩ := finished_of_reached h closed covers (reachedQ.of_first inputsQ)
  obtain rfl := (tangled_leaves graph capacity h).1 doneM
  -- `q` hands on the failure of `m`, though that of `x` is there as well
  have gathersQ : p.Gathers e.settings.concurrentSiblings (e.sortedInputs (.text "q"))
      (.error (.graph (.missingInput (.text "m") "a"))) := by
    rw [sideBySide, inputsQ]
    exact .of_first doneM (by simpa using finished_of_reached h closed covers reachedX)
  obtain ⟨q, doneQ⟩ := finished_of_reached h closed covers reachedQ
  obtain rfl := h.result_of_failed doneQ gathersQ
  -- and so does `p`
  have gathersP : p.Gathers e.settings.concurrentSiblings (e.sortedInputs (.text "p"))
      (.error (.graph (.missingInput (.text "m") "a"))) := by
    rw [sideBySide, inputsP]
    exact .of_first doneQ (by simpa using finished_of_reached h closed covers reachedC)
  obtain ⟨r, result⟩ := Option.ne_none_iff_exists'.mp closed
  have doneP := (h.told r result).1
  rw [target] at doneP
  obtain rfl := h.result_of_failed doneP gathersP
  exact ⟨result, (covers.visited _).mpr reachedC⟩

/-- One by one the refusal of `x` ends the pass before it gets to `c`. -/
theorem tangled_one_by_one (oneByOne : e.settings.concurrentSiblings = false) :
    p.result = some (.error .tooLarge) ∧ .text "c" ∉ p.visited := by
  obtain ⟨inputsP, inputsQ, -, -⟩ := tangled_inputs graph
  have reachedP : e.Reached p (.text "p") := target ▸ .target
  have reachedQ : e.Reached p (.text "q") := reachedP.of_first inputsP
  obtain ⟨m, doneM⟩ := finished_of_reached h closed covers (reachedQ.of_first inputsQ)
  obtain rfl := (tangled_leaves graph capacity h).1 doneM
  have passedM : p.AllPassed [(.text "a", .text "m")] := by
    intro i hi
    obtain rfl := List.mem_singleton.mp hi
    exact ⟨_, doneM, by rintro _ ⟨⟩; rfl⟩
  have reachedX : e.Reached p (.text "x") := .source reachedQ inputsQ fun _ => passedM
  obtain ⟨x, doneX⟩ := finished_of_reached h closed covers reachedX
  obtain rfl := (tangled_leaves graph capacity h).2 doneX
  -- the failure of `m` lets `q` go on, that of `x` does not
  obtain ⟨q, doneQ⟩ := finished_of_reached h closed covers reachedQ
  obtain rfl := h.result_of_failed doneQ (.early oneByOne inputsQ passedM doneX rfl)
  obtain ⟨r, result⟩ := Option.ne_none_iff_exists'.mp closed
  have doneP := (h.told r result).1
  rw [target] at doneP
  have first : e.sortedInputs (.text "p") = [] ++ [(.text "a", .text "q"), (.text "b", .text "c")] := inputsP
  obtain rfl := h.result_of_failed doneP
    (.early oneByOne first (fun _ hi => absurd hi List.not_mem_nil) doneQ rfl)
  refine ⟨result, fun visited => ?_⟩
  -- `c` is an input of `p` alone, and stands behind `q` there
  have onlyP : ∀ v ∈ .text "p" :: tangledGraph.ancestors (.text "p"),
      .text "c" ∈ tangledGraph.sourcesOf v → v = .text "p" := by decide +kernel
  have reachedC := (covers.visited _).mp visited
  generalize name : (.text "c" : Label) = c at reachedC
  cases reachedC with
  | target =>
    rw [target] at name
    exact absurd name (by decide)
  | @source v socket _ before after reached inputs passed =>
    subst name
    have up := reached.upstream
    have feeds := feeds_of_mem (e := e) (v := v) (i := (socket, .text "c")) (by simp [inputs])
    rw [graph] at up feeds
    rw [target] at up
    obtain rfl := onlyP v (List.mem_cons.mpr (Graph.upstream_iff.mp up)) feeds
    rcases Pass.mem_or_mem_or_eq (first.symm.trans inputs) with earlier | later | same
    · exact (passed oneByOne).not_mem doneQ rfl earlier
    · cases later
    · exact absurd (Prod.mk.inj same).2 (by decide)

end Tangled

/-- The engine and the pass for `p` when that has been run to its end, with some order of its steps. -/
def TangledEnd (sideBySide : Bool) (e : Engine) (p : Pass) : Prop :=
  ∃ turn m, (tangled sideBySide).start 0 (.text "p") (.whole 8) "s" = .ok turn ∧
    Steps (fun _ _ => True) m turn.engine e ∧ e.passes[0]? = some p ∧ p.result ≠ none

/-- The pass for `p` can be run to its end, and has then covered what it gets to. -/
theorem tangled_ends (sideBySide : Bool) :
    (∃ e p, TangledEnd sideBySide e p) ∧ ∀ e p, TangledEnd sideBySide e p →
      (∃ draws, Solo (fun _ _ => True) draws 0 0 [] p e) ∧ e.Covers p ∧ p.target = .text "p" ∧
        e.graph = tangledGraph ∧ e.settings = { concurrentSiblings := sideBySide } := by
  have opens : Reaches ⟨fun _ _ => True, fun _ => True, fun _ _ => True, fun _ _ => True⟩
      (blank { concurrentSiblings := sideBySide } false fun _ => "") (tangled sideBySide) :=
    (Relation.ReflTransGen.single (.opens trivial)).tail (.edits trivial)
  have rest : ∀ event, (tangled sideBySide).step event = none := by
    intro event
    cases event <;> rfl
  have total : AlwaysReplies fun _ _ => True := fun _ => ⟨.error .notConfigured, trivial⟩
  obtain ⟨turn, started, all⟩ := @covers_reached (tangled sideBySide) _ _ _ _ 0 (.text "p") (.whole 8)
    (.pixels 8) "s" opens rest Nat.one_pos rfl total rfl (by with_unfolding_all rfl)
  constructor
  · obtain ⟨-, -, _, _, first, -, -⟩ := all 0 _ (.none _)
    obtain ⟨m, e, _, p, steps, last, closed⟩ := first.exists_closed total (.none _)
    exact ⟨e, p, turn, m, started, steps, last.underway.pass, closed⟩
  · rintro e p ⟨turn', m, started', steps, pass, closed⟩
    obtain rfl := Except.ok.inj (started.symm.trans started')
    obtain ⟨graph, settings, draws, q, solo, target, covers⟩ := all m e steps
    obtain rfl := Option.some.inj (pass.symm.trans solo.underway.pass)
    exact ⟨⟨draws, solo⟩, (covers closed).1, target, graph, settings⟩

/-- Where operators fail the two ways agree neither on the failure that is reported nor on the nodes that are visited
and computed, in whatever order the steps are made. -/
theorem modes_differ : (∀ sideBySide, ∃ e p, TangledEnd sideBySide e p) ∧
    ∀ e₁ p₁ e₂ p₂, TangledEnd true e₁ p₁ → TangledEnd false e₂ p₂ →
      p₁.result = some (.error (.graph (.missingInput (.text "m") "a"))) ∧ p₂.result = some (.error .tooLarge) ∧
      (.text "c" ∈ p₁.visited ∧ .text "c" ∉ p₂.visited) ∧ (.text "c" ∈ p₁.computed ∧ .text "c" ∉ p₂.computed) := by
  refine ⟨fun sideBySide => (tangled_ends sideBySide).1, fun e₁ p₁ e₂ p₂ end₁ end₂ => ?_⟩
  obtain ⟨⟨draws₁, solo₁⟩, covers₁, target₁, graph₁, settings₁⟩ := (tangled_ends true).2 e₁ p₁ end₁
  obtain ⟨⟨draws₂, solo₂⟩, covers₂, target₂, graph₂, settings₂⟩ := (tangled_ends false).2 e₂ p₂ end₂
  obtain ⟨-, -, -, -, -, closed₁⟩ := end₁
  obtain ⟨-, -, -, -, -, closed₂⟩ := end₂
  obtain ⟨result₁, visited₁⟩ := tangled_side_by_side graph₁ (by rw [settings₁]; decide) solo₁ closed₁ covers₁ target₁
    (by rw [settings₁])
  obtain ⟨result₂, visited₂⟩ := tangled_one_by_one graph₂ (by rw [settings₂]; decide) solo₂ closed₂ covers₂ target₂
    (by rw [settings₂])
  have inputsC : e₁.sortedInputs (.text "c") = [] := by
    have none_ : tangledGraph.inputsOf (.text "c") = [] := by decide +kernel
    rw [sortedInputs, graph₁, none_, List.mergeSort_nil]
  have computed₁ : .text "c" ∈ p₁.computed := by
    refine (covers₁.computed _).mpr ⟨(covers₁.visited _).mp visited₁, ?_, ?_⟩
    · rw [graph₁]
      decide +kernel
    · rw [inputsC]
      exact fun i hi => absurd hi List.not_mem_nil
  have computed₂ : .text "c" ∉ p₂.computed := fun computed =>
    visited₂ ((covers₂.visited _).mpr ((covers₂.computed _).mp computed).1)
  exact ⟨result₁, result₂, ⟨visited₁, visited₂⟩, computed₁, computed₂⟩

end Engine

end VectorGraph
