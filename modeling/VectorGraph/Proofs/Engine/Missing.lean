import VectorGraph.Proofs.Engine.Meaning

/-!
What a pass comes to where required sockets are not connected.

A node is blocked if it or one of its ancestors has a required socket without an input. In a pass that runs alone
and in which no operator fails, the nodes that are blocked fail and no others (`Solo.comesTo`). Since only a fault
of the graph goes up from a node, every source is evaluated all the same, and the failure that a node hands on is
that of the first socket whose source is blocked, whichever source has failed first.
-/
namespace VectorGraph

namespace Graph

variable {g : Graph} {u v : Label}

/-- The first required socket of a node that is not connected, in the order of declaration. -/
def openSocket? (g : Graph) (v : Label) : Option String := do
  let n ← g.node? v
  n.kind.requiredSockets.find? fun socket => !(g.inputsOf v).any (·.1.nameText == socket)

/-- Whether the node or one of its ancestors has a required socket that is not connected. -/
def Blocked (g : Graph) (v : Label) : Prop := ∃ u ∈ v :: g.ancestors v, g.openSocket? u ≠ none

instance : Decidable (g.Blocked v) :=
  inferInstanceAs (Decidable (∃ u ∈ v :: g.ancestors v, g.openSocket? u ≠ none))

theorem blocked_iff_upstream : g.Blocked v ↔ ∃ u, g.Upstream u v ∧ g.openSocket? u ≠ none := by
  simp only [Blocked, List.mem_cons, upstream_iff]

theorem Blocked.of_source (h : g.Blocked u) (feeds : g.Feeds u v) : g.Blocked v := by
  obtain ⟨w, up, missing⟩ := blocked_iff_upstream.mp h
  exact blocked_iff_upstream.mpr ⟨w, up.tail feeds, missing⟩

theorem Blocked.of_openSocket? (h : g.openSocket? v ≠ none) : g.Blocked v := ⟨v, List.mem_cons_self, h⟩

/-- What is blocked lacks an input itself or has a source that is blocked. -/
theorem Blocked.cases (h : g.Blocked v) : g.openSocket? v ≠ none ∨ ∃ u, g.Feeds u v ∧ g.Blocked u := by
  obtain ⟨w, up, missing⟩ := blocked_iff_upstream.mp h
  rcases Relation.ReflTransGen.cases_tail up with rfl | ⟨u, path, feeds⟩
  · exact .inl missing
  · exact .inr ⟨u, feeds, blocked_iff_upstream.mpr ⟨w, path, missing⟩⟩

end Graph

namespace Engine

variable {e e' : Engine} {replies : Replies} {draws : Draws} {k base : Nat} {p : Pass} {first : IdSource}
  {v w : Label}

/-- The source of the first socket of a node, in the order of their names, whose source is blocked. -/
def blockedSource? (e : Engine) (v : Label) : Option Label :=
  ((e.sortedInputs v).find? fun i => e.graph.Blocked i.2).map (·.2)

/-- The way from a node to the one whose missing input it reports: to the first source that is blocked, and on from
there, until there is none. -/
inductive Blames (e : Engine) : Label → Label → Prop where
  | here {v : Label} (last : e.blockedSource? v = none) : Blames e v v
  | source {v u w : Label} (next : e.blockedSource? v = some u) (onward : Blames e u w) : Blames e v w

/-- A node blames no more than one. -/
theorem Blames.unique {w' : Label} (h : e.Blames v w) (h' : e.Blames v w') : w = w' := by
  induction h with
  | here last =>
    cases h' with
    | here => rfl
    | source next => exact absurd (last.symm.trans next) nofun
  | source next _ ih =>
    cases h' with
    | here last => exact absurd (last.symm.trans next) nofun
    | source next' onward' =>
      obtain rfl := Option.some.inj (next.symm.trans next')
      exact ih onward'

theorem blockedSource?_eq_none (sound : ∀ i ∈ e.sortedInputs v, ¬ e.graph.Blocked i.2) :
    e.blockedSource? v = none := by
  rw [blockedSource?, List.find?_eq_none.mpr fun i hi => by simpa using sound i hi]
  rfl

theorem blockedSource?_eq_some {socket u : Label} {before after : List (Label × Label)}
    (inputs : e.sortedInputs v = before ++ (socket, u) :: after)
    (sound : ∀ i ∈ before, ¬ e.graph.Blocked i.2) (blocked : e.graph.Blocked u) :
    e.blockedSource? v = some u := by
  have first : (e.sortedInputs v).find? (fun i => e.graph.Blocked i.2) = some (socket, u) :=
    List.find?_eq_some_iff_append.mpr
      ⟨decide_eq_true blocked, before, after, inputs, fun i hi => by simpa using sound i hi⟩
  rw [blockedSource?, first]
  rfl

/-- What a node comes to if no operator fails: a fragment, or the report of a missing input. -/
inductive ComesTo (e : Engine) (v : Label) : Except Failure Fragment → Prop where
  | fragment {f : Fragment} (sound : ¬ e.graph.Blocked v) : ComesTo e v (.ok f)
  | missing {w : Label} {socket : String} (blocked : e.graph.Blocked v) (blames : e.Blames v w)
      (unconnected : e.graph.openSocket? w = some socket) :
      ComesTo e v (.error (.graph (.missingInput w socket)))

theorem ComesTo.isGraphFault {failure : Failure} (h : e.ComesTo v (.error failure)) :
    failure.isGraphFault = true := by
  cases h
  rfl

theorem ComesTo.not_blocked {f : Fragment} (h : e.ComesTo v (.ok f)) : ¬ e.graph.Blocked v := by
  cases h with
  | fragment sound => exact sound

/-- A socket that is not among the inputs gathered is not connected. -/
theorem openSocket?_eq {n : Node} {sideBySide : Bool} {got : Inputs} (node : e.graph.node? v = some n)
    (gathers : p.Gathers sideBySide (e.sortedInputs v) (.ok got)) :
    e.graph.openSocket? v = n.kind.requiredSockets.find? fun s => !got.any (·.1 == s) := by
  have names : got.map (·.1) = (e.sortedInputs v).map (·.1.nameText) := by
    have each := gathers.forall₂
    clear gathers
    generalize e.sortedInputs v = inputs at each
    induction each with
    | nil => rfl
    | cons hx _ ih => rw [List.map_cons, List.map_cons, hx.1, ih]
  have same : ∀ socket, (e.graph.inputsOf v).any (·.1.nameText == socket) = got.any (·.1 == socket) := by
    intro socket
    have sorted := (List.mergeSort_perm (e.graph.inputsOf v) fun a b => !(b.1.nameText < a.1.nameText)).any_eq
      (f := (·.1.nameText == socket))
    rw [← sorted]
    change (e.sortedInputs v).any ((· == socket) ∘ (·.1.nameText)) = got.any ((· == socket) ∘ (·.1))
    rw [← List.any_map, ← List.any_map, names]
  simp only [Graph.openSocket?, node, Option.bind_eq_bind, Option.bind_some, same]

section Accounts

variable (source : ∀ i ∈ e.sortedInputs v, ∀ r, p.result? i.2 = some r → e.ComesTo i.2 r)

include source

/-- The failure of a node whose inputs were not gathered in full is that of the first source that is blocked. -/
theorem comesTo_of_gathers {sideBySide : Bool} {failure : Failure}
    (gathers : p.Gathers sideBySide (e.sortedInputs v) (.error failure)) :
    e.ComesTo v (.error failure) ∧ ∀ i ∈ e.sortedInputs v, p.result? i.2 ≠ none := by
  generalize hgot : (Except.error failure : Except Failure Inputs) = got at gathers
  cases gathers with
  | all finished =>
    have ended : ∀ i ∈ e.sortedInputs v, ∃ r, p.result? i.2 = some r := by
      intro i hi
      obtain ⟨r, hr, -⟩ := finished i hi
      exact ⟨r, hr⟩
    refine ⟨?_, fun i hi => Option.ne_none_iff_exists'.mpr (ended i hi)⟩
    obtain ⟨before, socket, u, after, inputs, passed, failed⟩ := Pass.collect_error ended hgot.symm
    have mem : (socket, u) ∈ e.sortedInputs v := by
      rw [inputs]
      exact List.mem_append_right before List.mem_cons_self
    have sound : ∀ i ∈ before, ¬ e.graph.Blocked i.2 := by
      intro i hi
      obtain ⟨f, hf⟩ := passed i hi
      exact (source i (by rw [inputs]; exact List.mem_append_left _ hi) _ hf).not_blocked
    cases source _ mem _ failed with
    | missing blocked blames unconnected =>
      exact .missing (blocked.of_source (feeds_of_mem mem))
        (.source (blockedSource?_eq_some inputs sound blocked) blames) unconnected
  | @early taken rest socket u _ oneByOne inputs passed failed other =>
    -- a failure that is no fault of the graph would have ended the node at once
    have mem : (socket, u) ∈ e.sortedInputs v := by
      rw [inputs]
      exact List.mem_append_right taken List.mem_cons_self
    rw [(source _ mem _ failed).isGraphFault] at other
    cases other

/-- What could be gathered in full comes from sources that are not blocked. -/
theorem not_blocked_of_gathers {sideBySide : Bool} {got : Inputs}
    (gathers : p.Gathers sideBySide (e.sortedInputs v) (.ok got)) :
    ∀ i ∈ e.sortedInputs v, ¬ e.graph.Blocked i.2 := by
  intro i hi
  obtain ⟨f, -, hf⟩ := gathers.exists_input hi
  exact (source i hi _ hf).not_blocked

/-- A node comes to what it should if its sources do, and they are finished. -/
theorem comesTo_of_accounts (clean : e.Clean base) {r : Except Failure Fragment}
    (accounts : e.Accounts base [] p v r) : e.ComesTo v r ∧ ∀ i ∈ e.sortedInputs v, p.result? i.2 ≠ none := by
  have ended : ∀ {sideBySide got}, p.Gathers sideBySide (e.sortedInputs v) (.ok got) →
      ∀ i ∈ e.sortedInputs v, p.result? i.2 ≠ none := by
    intro sideBySide got gathers i hi
    obtain ⟨f, -, hf⟩ := gathers.exists_input hi
    rw [hf]
    exact Option.some_ne_none _
  cases accounts with
  | gathered result gathers =>
    rw [result]
    exact comesTo_of_gathers source gathers
  | missed node gathers missing result =>
    have unconnected := (openSocket?_eq node gathers).trans missing
    rw [result]
    exact ⟨.missing (.of_openSocket? (unconnected ▸ Option.some_ne_none _))
      (.here (blockedSource?_eq_none (not_blocked_of_gathers source gathers))) unconnected, ended gathers⟩
  | @computed n got i c node gathers complete computation key store stage own old =>
    have hi := base_le_of_nothing_stored old
    obtain ⟨f, rfl⟩ := clean.ok computation hi stage
    refine ⟨.fragment fun blocked => ?_, ended gathers⟩
    rcases blocked.cases with missing | ⟨u, feeds, blocked⟩
    · exact missing ((openSocket?_eq node gathers).trans complete)
    · obtain ⟨i, hi, rfl⟩ := exists_input feeds
      exact not_blocked_of_gathers source gathers i hi blocked

end Accounts

namespace Solo

variable (h : Solo replies draws k base [] p e) (clean : e.Clean base)

include h clean

/-- Going up the graph, a node fails if it is blocked and reports the missing input of the node that it blames, and
all of its sources are finished. -/
theorem comesTo {r : Except Failure Fragment} (done : p.result? v = some r) :
    e.ComesTo v r ∧ ∀ i ∈ e.sortedInputs v, p.result? i.2 ≠ none := by
  obtain ⟨rank, ranked⟩ := h.exists_rank
  have up : ∀ {v r}, p.progress? v = some (.finished r) → e.graph.Upstream v p.target := fun done =>
    h.underway.within _ (by rw [done]; exact Option.some_ne_none _)
  refine ranked.induction
    (M := fun v => ∀ r, p.result? v = some r → e.ComesTo v r ∧ ∀ i ∈ e.sortedInputs v, p.result? i.2 ≠ none)
    (fun v _ ih r done => ?_) (up (Pass.result?_eq_some.mp done)) r done
  refine comesTo_of_accounts (fun i hi s hs => ?_) clean (h.underway.sound v _ (Pass.result?_eq_some.mp done))
  exact (ih i.2 (feeds_of_mem hi) s hs).1

/-- When the target is finished, so is every node that it depends on, blocked or not. -/
theorem finished_of_upstream (done : p.result? p.target ≠ none) (up : e.graph.Upstream v p.target) :
    p.result? v ≠ none := by
  induction up using Relation.ReflTransGen.head_induction_on with
  | refl => exact done
  | head feeds _ ih =>
    obtain ⟨r, hr⟩ := Option.ne_none_iff_exists'.mp ih
    obtain ⟨i, hi, rfl⟩ := exists_input feeds
    exact (h.comesTo clean hr).2 i hi

end Solo

/-- What a pass has come to in which no operator failed. -/
structure Settled (e : Engine) (p : Pass) : Prop where
  visited : ∀ v, v ∈ p.visited ↔ v = p.target ∨ v ∈ e.graph.ancestors p.target
  visitedOnce : p.visited.Nodup
  /-- The operators of all nodes have run that are not blocked. -/
  computed : ∀ v, v ∈ p.computed ↔ v ∈ p.visited ∧ ¬ e.graph.Blocked v
  computedOnce : p.computed.Nodup
  succeeds : ¬ e.graph.Blocked p.target → ∃ f, p.result = some (.ok f)
  reports : e.graph.Blocked p.target → ∃ w socket, e.Blames p.target w ∧
    e.graph.openSocket? w = some socket ∧ p.result = some (.error (.graph (.missingInput w socket)))
  /-- The evaluator has the record of the pass. -/
  told : ∃ v : Evaluator, e.evaluators[p.evaluator]? = some v ∧ v.visited = p.visited ∧
    v.computed = p.computed

/-- A closed pass in which no operator failed has evaluated what is not blocked. -/
theorem Solo.settled (h : Solo replies draws k base [] p e) {runs : List Nat}
    (rec_ : Recorded e draws base first p runs) (closed : p.result ≠ none) (clean : e.Clean base) :
    e.Settled p := by
  obtain ⟨r, hr⟩ := Option.ne_none_iff_exists'.mp closed
  obtain ⟨done, told⟩ := h.told r hr
  obtain ⟨comes, -⟩ := h.comesTo clean done
  refine ⟨fun v => ?_, h.underway.once, fun v => ?_, h.nodup_computed closed rec_, fun sound => ?_,
    fun blocked => ?_, told⟩
  · rw [h.visited_iff closed, ← Graph.upstream_iff]
    constructor
    · intro finished
      obtain ⟨s, hs⟩ := Option.ne_none_iff_exists'.mp finished
      refine h.underway.within v ?_
      rw [Pass.result?_eq_some.mp hs]
      exact Option.some_ne_none _
    · exact h.finished_of_upstream clean (by rw [done]; exact Option.some_ne_none r)
  · rw [h.mem_computed closed rec_, h.visited_iff closed]
    constructor
    · rintro ⟨i, c, low, hc, rfl⟩
      obtain ⟨s, stage, hs⟩ := h.result_of_computation closed low hc
      obtain ⟨f, rfl⟩ := clean.ok hc low stage
      rw [hs]
      exact ⟨Option.some_ne_none _, (h.comesTo clean hs).1.not_blocked⟩
    · rintro ⟨finished, sound⟩
      obtain ⟨s, hs⟩ := Option.ne_none_iff_exists'.mp finished
      cases (h.comesTo clean hs).1 with
      | missing blocked => exact absurd blocked sound
      | fragment =>
        -- the cache held nothing, so the fragment comes of a computation
        obtain ⟨i, c, low, hc, name, -⟩ := h.computation_of_ok hs
        exact ⟨i, c, low, hc, name⟩
  · cases comes with
    | fragment => exact ⟨_, hr⟩
    | missing blocked => exact absurd blocked sound
  · cases comes with
    | fragment sound => exact absurd blocked sound
    | missing _ blames unconnected => exact ⟨_, _, blames, unconnected, hr⟩

/-- A pass that is started where nothing else goes on, and where its cache holds nothing, runs alone and keeps its
record, in whatever order its steps are made. There are only so many of them. -/
theorem Calm.runs_alone {u : Usage} {n : Nat} {target : Label} {resolution : Json} {r : Extent} (salt : String)
    (calm : Calm e) (ledger : Ledger u.replies draws e) (there : n < e.evaluators.length)
    (empty : (e.cacheOf n).entries = []) (positive : resolutionOf resolution = .ok r)
    (acyclic : e.graph.checkAcyclic target = .ok ()) :
    ∃ turn, e.start n target resolution salt = .ok turn ∧
      ∃ bound, ∀ m e', Steps u.replies m turn.engine e' → m ≤ bound ∧ Grows e e' ∧ e'.graph = e.graph ∧
        ∃ draws p runs, Solo u.replies draws e.passes.length e.computations.length [] p e' ∧
          Recorded e' draws e.computations.length ⟨salt, (e.evaluators.getD n default).counter⟩ p runs ∧
          p.evaluator = n ∧ p.target = target ∧ p.resolution = r := by
  obtain ⟨turn, p, started, s, rfl, opened, solo⟩ := calm.starts salt ledger there positive acyclic
  rw [empty] at solo
  obtain ⟨log, state⟩ := s.state
  have first : Recorded turn.engine draws e.computations.length
      ⟨salt, (e.evaluators.getD n default).counter⟩ p [] := by
    refine ⟨s.computed, fun i => ?_, .nil, s.ids ▸ .none⟩
    simp only [List.not_mem_nil, false_iff, not_and]
    rintro hi ⟨c, hc, -⟩
    rw [state] at hc
    exact absurd (List.getElem?_eq_some_iff.mp hc).1 (Nat.not_lt.mpr hi)
  refine ⟨turn, started, remaining turn.engine p, fun m e' steps => ?_⟩
  obtain ⟨draws', q, runs, solo', recorded, less, grows, graph⟩ := solo.recorded_steps first steps
  have later := solo.later grows solo'.underway
  exact ⟨by omega, opened.trans grows, graph.trans (by rw [state]), draws', q, runs, solo', recorded,
    later.evaluator.trans s.evaluator, later.target.trans s.target, later.resolution⟩

/-- So it is from a state of rest on. -/
theorem runs_alone {u : Usage} {settings : Settings} {canRender : Bool} {digest : Digest} {n : Nat}
    {target : Label} {resolution : Json} {r : Extent} (salt : String)
    (run : Reaches u (blank settings canRender digest) e) (rest : ∀ event, e.step event = none)
    (there : n < e.evaluators.length) (empty : (e.cacheOf n).entries = []) (total : AlwaysReplies u.replies)
    (positive : resolutionOf resolution = .ok r) (acyclic : e.graph.checkAcyclic target = .ok ()) :
    ∃ turn, e.start n target resolution salt = .ok turn ∧
      ∃ bound, ∀ m e', Steps u.replies m turn.engine e' → m ≤ bound ∧
        e'.graph = e.graph ∧ e'.settings = settings ∧ e'.canRender = canRender ∧
        ∃ draws p runs, Solo u.replies draws e.passes.length e.computations.length [] p e' ∧
          Recorded e' draws e.computations.length ⟨salt, (e.evaluators.getD n default).counter⟩ p runs ∧
          p.evaluator = n ∧ p.target = target ∧ p.resolution = r := by
  obtain ⟨draws, ledger, old⟩ := run.ledger
    (blank_ledger u.replies settings canRender digest fun _ => default)
  obtain ⟨turn, started, bound, all⟩ :=
    (ledger.calm_of_rest total rest).runs_alone salt ledger there empty positive acyclic
  refine ⟨turn, started, bound, fun m e' steps => ?_⟩
  obtain ⟨less, grows, graph, told⟩ := all m e' steps
  exact ⟨less, graph, grows.settings.trans old.settings, grows.canRender.trans old.canRender, told⟩

/-- Missing inputs are reported, and nothing else is left out for them. A pass is started where nothing else goes
on and its cache holds nothing. Whatever order its steps are made in, there are only so many of them, one is
possible until the pass is closed, and if no operator has failed by then the pass has evaluated all nodes that are
not blocked and reports the missing input that the target blames. -/
theorem reports_missing_input {u : Usage} {settings : Settings} {canRender : Bool} {digest : Digest} {n : Nat}
    {target : Label} {resolution : Json} {r : Extent} (salt : String)
    (run : Reaches u (blank settings canRender digest) e) (rest : ∀ event, e.step event = none)
    (there : n < e.evaluators.length) (empty : (e.cacheOf n).entries = [])
    (capacity : 0 ≤ settings.maxCacheEntries) (total : AlwaysReplies u.replies)
    (positive : resolutionOf resolution = .ok r) (acyclic : e.graph.checkAcyclic target = .ok ()) :
    ∃ turn, e.start n target resolution salt = .ok turn ∧
      ∃ bound, ∀ m e', Steps u.replies m turn.engine e' → m ≤ bound ∧
        e'.graph = e.graph ∧ e'.settings = settings ∧ e'.canRender = canRender ∧
        ∃ p, e'.passes[e.passes.length]? = some p ∧ p.evaluator = n ∧ p.target = target ∧
          p.resolution = r ∧
          (p.result = none → ∃ event turn', e'.step event = some turn' ∧ event.Allowed u.replies e') ∧
          (p.result ≠ none → (∀ c ∈ e'.computations.drop e.computations.length, ¬ e'.Raised u.replies c) →
            e'.Settled p) := by
  obtain ⟨turn, started, bound, all⟩ := runs_alone (n := n) salt run rest there empty total positive acyclic
  refine ⟨turn, started, bound, fun m e' steps => ?_⟩
  obtain ⟨less, graph, settings', canRender', draws, p, runs, solo, recorded, evaluator, target', resolution'⟩ :=
    all m e' steps
  refine ⟨less, graph, settings', canRender', p, solo.underway.pass, evaluator, target', resolution',
    solo.exists_step total, fun closed none_ => ?_⟩
  exact solo.settled recorded closed (solo.ledger.clean (settings' ▸ capacity) none_)

/-- An engine whose graph puts out the union of a colour with nothing: the socket that a union requires is not
connected. -/
def lacking : Engine :=
  { (blank {} false fun _ => "").addEvaluator none with
    graph :=
      { nodes := [⟨.text "o", .output, []⟩, ⟨.text "u", .union, []⟩, ⟨.text "c", .color, []⟩]
        edges := [⟨.text "c", .text "out", .text "u", .text "b"⟩, ⟨.text "u", .text "out", .text "o", .text "in"⟩] } }

/-- The events of a pass for the output, one after another. -/
def lackingEvents : List Event :=
  [.begin 0 (.text "o"), .launch 0 (.text "o"), .begin 0 (.text "u"), .launch 0 (.text "u"), .begin 0 (.text "c"),
    .run 0, .deliver 0 (.text "c"), .proceed 0 (.text "u"), .proceed 0 (.text "o"), .close 0]

/-- The engine when the pass for the output is closed. -/
def lackingEnd : Engine := lackingEvents.foldl after (lacking.opened (.text "o") (.whole 8) "s")

/-- The output blames the union for its missing input, and the colour is evaluated all the same. -/
theorem reports_missing_input_lacking : ∃ (e : Engine) (p : Pass), e.Settled p ∧
    p.computed = [.text "c"] ∧ e.Blames (.text "o") (.text "u") ∧
    p.result = some (.error (.graph (.missingInput (.text "u") "a"))) := by
  have opens : Reaches ⟨fun _ _ => True, fun _ => True, fun _ _ => True, fun _ _ => True⟩
      (blank {} false fun _ => "") lacking :=
    (Relation.ReflTransGen.single (.opens trivial)).tail (.edits trivial)
  have rest : ∀ event, lacking.step event = none := by
    intro event
    cases event <;> rfl
  obtain ⟨turn, started, bound, all⟩ := @reports_missing_input lacking _ _ _ _ 0 (.text "o") (.whole 8)
    (.pixels 8) "s" opens rest (by decide) rfl (by decide) (fun _ => ⟨.error .notConfigured, trivial⟩) rfl
    (by with_unfolding_all rfl)
  have opened : turn.engine = lacking.opened (.text "o") (.whole 8) "s" := by
    rw [Engine.opened, started]
  rw [opened] at all
  have able : (lacking.opened (.text "o") (.whole 8) "s").possible lackingEvents = true := by decide +kernel
  have steps := (Steps.none _).follow (fun _ _ => trivial) lackingEvents able
  obtain ⟨-, -, -, -, p, pass, -, target, -, -, settles⟩ := all _ _ steps
  have closed : (lackingEnd.passes[0]?).map (·.result.isSome) = some true := by decide +kernel
  have record : (lackingEnd.passes[0]?).map (·.computed) = some [.text "c"] := by decide +kernel
  have ended : (lackingEnd.computations.all (·.stage.isOk)) = true := by decide +kernel
  change lackingEnd.passes[0]? = some p at pass
  rw [pass, Option.map_some, Option.some.injEq] at closed record
  have settled : lackingEnd.Settled p := by
    refine settles (fun unclosed => by rw [unclosed] at closed; cases closed) fun c hc => ?_
    rintro ⟨failure, ids, stage, -⟩
    have ok := List.all_eq_true.mp ended c (List.mem_of_mem_drop hc)
    rw [stage] at ok
    cases ok
  have blocked : lackingEnd.graph.Blocked (.text "o") := by decide +kernel
  obtain ⟨w, socket, blames, unconnected, result⟩ := settled.reports (target ▸ blocked)
  rw [target] at blames
  have blamed : lackingEnd.Blames (.text "o") (.text "u") := by
    have next : lackingEnd.blockedSource? (.text "o") = some (.text "u") := by decide +kernel
    have last : lackingEnd.blockedSource? (.text "u") = none := by decide +kernel
    exact .source next (.here last)
  obtain rfl := blames.unique blamed
  have name : lackingEnd.graph.openSocket? (.text "u") = some "a" := by decide +kernel
  obtain rfl := Option.some.inj (unconnected.symm.trans name)
  exact ⟨lackingEnd, p, settled, record, blamed, result⟩

end Engine

end VectorGraph
