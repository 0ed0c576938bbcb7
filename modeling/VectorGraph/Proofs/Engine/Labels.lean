import VectorGraph.Proofs.Engine.Usage

/-!
The entries of a cache are never mislabelled.

As long as every node keeps its kind, whatever else happens to the graph and however passes overlap, an
entry is what the operator of its node makes of parameters and inputs with the digests in its key. The
same is true of every fragment that a node is handed after it has looked up its key, be it from an entry
or from a computation under way.

That operators run on the parameters that the key was made from is what the ledger says. What is left
is that the kind of a node is the same when the node begins, when it looks up its key, and when its
entry is found.
-/
namespace VectorGraph.Engine

variable {kindOf : Label → Kind} {u : Usage} {replies : Replies} {e e' : Engine} {draws : Draws}

/-- Every node of the graph is of the kind given. -/
def OfKind (kindOf : Label → Kind) (g : Graph) : Prop :=
  ∀ v n, g.node? v = some n → n.kind = kindOf v

/-- What gathers inputs in a pass is of the kind given. -/
def GathersKind (kindOf : Label → Kind) (p : Pass) : Prop :=
  ∀ v needs, p.progress? v = some (.gathering needs) → needs.kind = kindOf v

/-- Nodes are of the kinds given, in the graph, in the tasks and in the computations. -/
structure KindsKept (kindOf : Label → Kind) (e : Engine) : Prop where
  graph : OfKind kindOf e.graph
  tasks : ∀ (k : Nat) (p : Pass), e.passes[k]? = some p → GathersKind kindOf p
  computations : ∀ (i : Nat) (c : Computation), e.computations[i]? = some c →
    c.node.kind = kindOf c.node.id

namespace KindsKept

variable {k : Nat} {p q : Pass} {v : Label}

/-- A pass goes on, and what gathers in it then is of the right kind. -/
theorem setPass (h : KindsKept kindOf e) (tasks : GathersKind kindOf q) :
    KindsKept kindOf (e.setPass k q) := by
  refine ⟨h.graph, fun j s hs => ?_, h.computations⟩
  rcases List.mem_or_eq_of_mem_set (List.mem_of_getElem? hs) with hs | rfl
  · obtain ⟨i, hi⟩ := List.mem_iff_getElem?.mp hs
    exact h.tasks i s hi
  · exact tasks

/-- A task is set, to one of the right kind if it gathers. -/
theorem gathering_set {x : Progress} (old : GathersKind kindOf p)
    (new : ∀ needs, x = .gathering needs → needs.kind = kindOf v) : GathersKind kindOf (p.set v x) := by
  intro u needs hu
  rcases progress?_set_cases hu with hu | ⟨rfl, hx⟩
  · exact old u needs hu
  · exact new needs hx.symm

theorem gathering_foldl_ask {sources : List Label} (old : GathersKind kindOf p) :
    GathersKind kindOf (sources.foldl Pass.ask p) := by
  intro u needs hu
  rcases progress?_foldl_ask_cases hu with hu | ⟨-, -, hu⟩
  · exact old u needs hu
  · cases hu

/-- The computations go on, or are of the right kind. -/
theorem compute (h : KindsKept kindOf e) {caches : List Cache} {cs : List Computation}
    (computations : ∀ c ∈ cs, (∃ d ∈ e.computations, d.Later c) ∨ c.node.kind = kindOf c.node.id) :
    KindsKept kindOf { e with caches := caches, computations := cs } := by
  refine ⟨h.graph, h.tasks, fun i c hc => ?_⟩
  rcases computations c (List.mem_of_getElem? hc) with ⟨d, hd, hdc⟩ | hkind
  · obtain ⟨j, hj⟩ := List.mem_iff_getElem?.mp hd
    rw [hdc.node]
    exact h.computations j d hj
  · exact hkind

theorem compute_set (h : KindsKept kindOf e) {caches : List Cache} {i : Nat} {c d : Computation}
    (hc : e.computations[i]? = some c) (later : c.Later d) :
    KindsKept kindOf { e with caches := caches, computations := e.computations.set i d } := by
  refine h.compute fun b hb => .inl ?_
  rcases List.mem_or_eq_of_mem_set hb with hb | rfl
  · exact ⟨b, hb, .refl b⟩
  · exact ⟨c, List.mem_of_getElem? hc, later⟩

theorem looks {node : Node} {inputs : Inputs} (h : KindsKept kindOf e)
    (tasks : GathersKind kindOf p)
    (kind : node.kind = kindOf node.id) (looked : Looks e k p node inputs e') : KindsKept kindOf e' := by
  have kept : ∀ x : Progress, (∀ needs, x ≠ .gathering needs) → GathersKind kindOf (p.set node.id x) :=
    fun x hx => gathering_set tasks fun needs heq => absurd heq (hx needs)
  cases looked with
  | @found f entry =>
    have told := @setPass _ _ k _ h (kept (.finished (.ok f)) fun _ => nofun)
    exact ⟨told.graph, told.tasks, told.computations⟩
  | @joined ticket isShared missing running shared =>
    have told := @setPass _ _ k _ h
      (kept (.waiting (e.computations.findIdx isShared)) fun _ => nofun)
    have marked := @compute _ _ h e.caches (e.computations.map fun c =>
      if isShared c then { c with waiters := c.waiters ++ [(k, node.id)] } else c) fun c hc => by
        obtain ⟨d, hd, rfl⟩ := List.mem_map.mp hc
        refine .inl ⟨d, hd, ?_⟩
        split <;> exact ⟨rfl, rfl, rfl, rfl, rfl, fun _ hr => hr⟩
    exact ⟨told.graph, told.tasks, marked.computations⟩
  | started missing idle =>
    have told := @setPass _ _ k _ h (kept (.waiting e.computations.length) fun _ => nofun)
    have added := @compute _ _ h e.caches (e.computations ++
        [{ store := e.storeOf p.evaluator, ticket := (e.cacheOf p.evaluator).issued,
           pass := k, node, inputs, waiters := [(k, node.id)] }]) fun c hc => by
      rcases List.mem_append.mp hc with hc | hc
      · exact .inl ⟨c, hc, .refl c⟩
      · rw [List.mem_singleton] at hc
        exact .inr (hc ▸ kind)
    exact ⟨told.graph, told.tasks, added.computations⟩

theorem continues {kind : Kind} {inputs : List (Label × Label)} (h : KindsKept kindOf e)
    (tasks : GathersKind kindOf p)
    (hkind : kind = kindOf v) (continued : Continues e k p v kind inputs e') : KindsKept kindOf e' := by
  cases continued with
  | fails gathered => exact h.setPass (gathering_set tasks fun _ => nofun)
  | misses gathered missing => exact h.setPass (gathering_set tasks fun _ => nofun)
  | looks gathered complete looked => exact h.looks tasks hkind looked
  | @awaits taken rest socket source oneByOne split passed open_ =>
    refine h.setPass (@gathering_foldl_ask _ _ [source] (gathering_set tasks ?_))
    intro needs heq
    rw [← Progress.gathering.inj heq]
    exact hkind

theorem ended (h : KindsKept kindOf e) {i : Nat} {c : Computation} (hc : e.computations[i]? = some c)
    (isOpen : c.Open) (result : Except Failure Fragment) (lines : List String) :
    KindsKept kindOf (e.ended i c result lines) := by
  have settled := @compute_set _ _ h
    (e.caches.set c.store ((e.caches.getD c.store default).settle c.ticket result).2) _ _ _ hc
    (isOpen.stage (.ended ((e.caches.getD c.store default).settle c.ticket result).1))
  exact ⟨settled.graph, settled.tasks, settled.computations⟩

/-- Every move keeps the kinds. -/
theorem move (h : KindsKept kindOf e) (ledger : Ledger replies draws e) (m : Move replies e e') :
    KindsKept kindOf e' := by
  -- The run of an operator tells its pass of the run, and reports lines: neither touches a kind.
  have afterRun : ∀ {c : Computation} {p : Pass} {lines : List String}, e.passes[c.pass]? = some p →
      KindsKept kindOf (e.ran c p lines) := by
    intro c p lines hp
    have tasks := h.tasks _ p hp
    have told := @setPass _ _ c.pass
      { p with computed := p.computed ++ [c.node.id], ids := (e.workOf p c).2 } h tasks
    exact ⟨told.graph, told.tasks, told.computations⟩
  cases m with
  | @absent k p v pass fresh unknown =>
    have tasks := h.tasks k p pass
    exact h.setPass (@gathering_set _ (visit p v) _ _ tasks fun _ => nofun)
  | @gathers k p v n pass fresh known sideBySide some_ =>
    have tasks := h.tasks k p pass
    refine h.setPass (@gathering_set _ (visit p v) _ _ tasks fun needs heq => ?_)
    rw [← Progress.gathering.inj heq]
    exact h.graph v n known
  | @begins _ k p v n pass fresh known continued =>
    have tasks := h.tasks k p pass
    exact @continues _ _ _ k (visit p v) v _ _ h tasks (h.graph v n known) continued
  | @launches k p v needs sources pass gathering sideBySide unasked all =>
    have tasks := h.tasks k p pass
    refine h.setPass (gathering_foldl_ask (gathering_set tasks fun needs' heq => ?_))
    rw [← Progress.gathering.inj heq]
    exact tasks v needs gathering
  | @proceeds _ k p v needs pass gathering ready continued =>
    have tasks := h.tasks k p pass
    exact h.continues tasks (tasks v needs gathering) (ledger.goesOn pass gathering continued)
  | @runsOn i c p request resume lines computation pass queued work =>
    have isOpen := Computation.open_of_queued queued
    have painted := @compute_set _ (e.ran c p lines) (afterRun pass) e.caches i c _ computation
      (isOpen.stage (.painting request resume))
    exact ⟨painted.graph, painted.tasks, painted.computations⟩
  | @runsOut i c p result lines lines' computation pass queued yields =>
    have isOpen := Computation.open_of_queued queued
    exact (afterRun pass).ended computation isOpen result lines'
  | @replies i c request resume reply lines computation painted allowed =>
    have isOpen := Computation.open_of_painting painted
    exact h.ended computation isOpen _ lines
  | delivers pass waiting computation stage =>
    exact h.setPass (gathering_set (h.tasks _ _ pass) fun _ => nofun)
  | @closes k p result pass unclosed finished =>
    have tasks := h.tasks k p pass
    have closed := @setPass _ _ k { p with result := some result } h tasks
    exact ⟨closed.graph, closed.tasks, closed.computations⟩

theorem blank (kindOf : Label → Kind) (settings : Settings) (canRender : Bool) (digest : Digest) :
    KindsKept kindOf (blank settings canRender digest) :=
  ⟨fun v n h => by simp [Engine.blank, Graph.node?] at h, fun k p h => by simp [Engine.blank] at h,
    fun i c h => by simp [Engine.blank] at h⟩

/-- Every change keeps the kinds, as long as no edit changes that of a node. -/
theorem change (h : KindsKept kindOf e) (ledger : Ledger u.replies draws e)
    (edits : ∀ e g, u.mayEdit e g → OfKind kindOf g) (m : Change u e e') : KindsKept kindOf e' := by
  cases m with
  | steps step allowed => exact h.move ledger (move_of_step step allowed)
  | opens may =>
    unfold addEvaluator
    dsimp only
    split <;> exact ⟨h.graph, h.tasks, h.computations⟩
  | starts may there started =>
    obtain ⟨p, -, s⟩ := started_of_start started
    obtain ⟨log, state⟩ := s.state
    rw [state]
    refine ⟨h.graph, fun k q hq => ?_, h.computations⟩
    rcases List.mem_append.mp (List.mem_of_getElem? hq) with hq | hq
    · obtain ⟨j, hj⟩ := List.mem_iff_getElem?.mp hq
      exact h.tasks j q hj
    · rw [List.mem_singleton] at hq
      intro v needs gathering
      simp only [hq, Pass.progress?, s.tasks, List.find?_singleton] at gathering
      split at gathering <;> cases gathering
  | edits may => exact ⟨edits _ _ may, h.tasks, h.computations⟩
  | invalidates there => exact ⟨h.graph, h.tasks, h.computations⟩
  | clears there => exact ⟨h.graph, h.tasks, h.computations⟩

end KindsKept

/-- Passes overlap as they like, and edits may change anything but the kind of a node. -/
def freely (kindOf : Label → Kind) (replies : Replies) : Usage where
  replies := replies
  mayOpen _ := True
  mayStart _ _ := True
  mayEdit _ g := OfKind kindOf g

theorem Reaches.kept (run : Reaches (freely kindOf replies) e e')
    (h : Ledger replies draws e) (kinds : KindsKept kindOf e) :
    ∃ draws', Ledger replies draws' e' ∧ Grows e e' ∧ KindsKept kindOf e' := by
  induction run with
  | refl => exact ⟨draws, h, .refl e, kinds⟩
  | tail _ change ih =>
    obtain ⟨draws', ledger, grows, kinds'⟩ := ih
    obtain ⟨draws'', ledger', grows', -⟩ := change.upkeep ledger
    exact ⟨draws'', ledger', grows.trans grows', kinds'.change ledger (fun _ _ may => may) change⟩

/-- A fragment is what the operator of the node of a key, which is of the kind given, makes at the
resolution of the key of parameters and inputs that have the digests of the key. -/
def Labelled (e : Engine) (kindOf : Label → Kind) (replies : Replies) (key : CacheKey) (f : Fragment) :
    Prop :=
  ∃ (resolution : Extent) (params : Fields) (inputs : Inputs), resolution.count = key.resolution ∧
    e.digest (Json.canonical (.object params)).toUTF8 = key.params ∧
    e.digest (inputsImage e.digest inputs) = key.inputs ∧
    e.Makes replies resolution ⟨key.node, kindOf key.node, params⟩ inputs f

/-- What a computation has ended with is labelled by its key. -/
theorem Ledger.labelled (h : Ledger replies draws e) (kinds : KindsKept kindOf e) {i : Nat}
    {c : Computation} {f : Fragment} (hc : e.computations[i]? = some c)
    (stage : c.stage = .ended (.ok f)) : e.Labelled kindOf replies (e.keyOf c) f := by
  refine ⟨e.extentOf c, c.node.params, c.inputs, rfl, rfl, rfl, draws i, ?_⟩
  have node : (⟨c.node.id, kindOf c.node.id, c.node.params⟩ : Node) = c.node := by
    rw [← kinds.computations i c hc]
  have made := h.makes hc stage
  change Work.Yields replies (Node.perform ⟨c.node.id, kindOf c.node.id, c.node.params⟩ e.settings
    e.canRender (e.extentOf c) c.inputs (draws i)).1 (.ok f)
  rw [node]
  exact made

/-- A node of a pass looks up its key, where it begins or where it goes on. -/
inductive LooksUp (e : Engine) (k : Nat) (p : Pass) (node : Node) (inputs : Inputs) : Prop where
  | beginning {q : Pass} (pass : e.passes[k]? = some q) (visited : p = visit q node.id)
      (step : e.step (.begin k node.id) = some (e.lookUp k p node inputs))
  | proceeding (pass : e.passes[k]? = some p)
      (step : e.step (.proceed k node.id) = some (e.lookUp k p node inputs))

/-- After a look-up the node is served by a computation that was asked for under the key. -/
theorem LooksUp.served {k : Nat} {p : Pass} {node : Node} {inputs : Inputs}
    (h : e.LooksUp k p node inputs) (ledger : Ledger replies draws e) :
    ∃ (i : Nat) (c : Computation), (e.lookUp k p node inputs).engine.computations[i]? = some c ∧
      (e.lookUp k p node inputs).engine.keyOf c = e.keyFor p.resolution node inputs ∧
      (e.lookUp k p node inputs).engine.Serves k node.id i := by
  have looks := lookUp_looks e k p node inputs
  cases h with
  | @beginning q pass visited step =>
    obtain ⟨q', pass', h⟩ := Option.bind_eq_some_iff.mp step
    rw [pass] at pass'
    obtain rfl := Option.some.inj pass'
    split at h
    · next fresh =>
      have there : (e.setPass k p).passes[k]? = some p :=
        List.getElem?_set_self (List.getElem?_eq_some_iff.mp pass).1
      have ledger' : Ledger replies draws (e.setPass k p) := by
        rw [visited]
        exact ledger.setUndecided pass (visit_later _ q node.id) fun u y hy => .inl hy
      have undecided : Undecided p node.id := .inl (visited ▸ fresh)
      obtain ⟨-, answer⟩ := looks.refocus.upkeep ledger' there undecided
      obtain ⟨i, c, hc, hkey, -, serves⟩ := answer.served
      exact ⟨i, c, hc, hkey, serves⟩
    · cases h
  | proceeding pass step =>
    obtain ⟨q', pass', h⟩ := Option.bind_eq_some_iff.mp step
    rw [pass] at pass'
    obtain rfl := Option.some.inj pass'
    split at h
    · next needs gathering =>
      have undecided : Undecided p node.id := .inr ⟨needs, gathering⟩
      obtain ⟨-, answer⟩ := looks.upkeep ledger pass undecided
      obtain ⟨i, c, hc, hkey, -, serves⟩ := answer.served
      exact ⟨i, c, hc, hkey, serves⟩
    · cases h

/-- The look-up is one of the changes. -/
theorem LooksUp.change {k : Nat} {p : Pass} {node : Node} {inputs : Inputs}
    (h : e.LooksUp k p node inputs) : Change u e (e.lookUp k p node inputs).engine := by
  cases h with
  | beginning pass visited step => exact .steps step trivial
  | proceeding pass step => exact .steps step trivial

/-- However passes overlap and whatever is edited but the kinds of nodes: every entry of a cache is
labelled by its key, and a fragment that a node holds after a look-up is labelled by the key that was
looked up. -/
theorem entries_and_answers_labelled {settings : Settings} {canRender : Bool} {digest : Digest}
    (run : Reaches (freely kindOf replies) (blank settings canRender digest) e) :
    (∀ cache ∈ e.caches, ∀ x ∈ cache.entries, e.Labelled kindOf replies x.1 x.2) ∧
    ∀ (k : Nat) (p : Pass) (node : Node) (inputs : Inputs), e.LooksUp k p node inputs →
      ∀ e', Reaches (freely kindOf replies) (e.lookUp k p node inputs).engine e' →
      ∀ q f, e'.passes[k]? = some q → q.result? node.id = some (.ok f) →
        e'.Labelled kindOf replies (e.keyFor p.resolution node inputs) f := by
  obtain ⟨draws, ledger, -, kinds⟩ := run.kept
    (blank_ledger replies settings canRender digest fun _ => default) (.blank ..)
  refine ⟨fun cache hcache x hx => ?_, fun k p node inputs looked e' later q f hq hf => ?_⟩
  · obtain ⟨s, hs⟩ := List.mem_iff_getElem?.mp hcache
    obtain ⟨i, c, hc, -, hstage, hkey⟩ := ledger.books.entries s cache hs x.1 x.2 hx
    rw [← hkey]
    exact ledger.labelled kinds hc hstage
  · obtain ⟨i, c, hc, hkey, serves⟩ := looked.served ledger
    have step : Change (freely kindOf replies) e (e.lookUp k p node inputs).engine := looked.change
    obtain ⟨draws', ledger', -, -⟩ := step.upkeep ledger
    obtain ⟨draws'', ledger'', grows, kinds''⟩ := later.kept ledger'
      (kinds.change ledger (fun _ _ may => may) step)
    obtain ⟨q', d, hq', hd, holds⟩ := serves.grows grows
    rw [hq] at hq'
    obtain rfl := Option.some.inj hq'
    rw [Pass.result?_eq_some] at hf
    rcases holds with waiting | ⟨r, hr, finished⟩
    · rw [hf] at waiting
      cases waiting
    · rw [hf] at finished
      obtain rfl := Progress.finished.inj (Option.some.inj finished)
      obtain ⟨r, hpass⟩ := ledger'.passes i c hc
      obtain ⟨d', hd', hcd⟩ := grows.computations i c hc
      rw [hd] at hd'
      obtain rfl := Option.some.inj hd'
      rw [← hkey, ← grows.keyOf hpass hcd]
      exact ledger''.labelled kinds'' hd hr

/-! ## Two passes that share a computation -/

/-- Two passes are open for a node of one colour, and the first of them has begun. -/
def firstAsked : Engine :=
  after (opened (opened { (blank {} false fun _ => "").addEvaluator none with
    graph := { nodes := [⟨.text "a", .color, []⟩] } } (.text "a") (.whole 8) "")
    (.text "a") (.whole 8) "") (.begin 0 (.text "a"))

theorem firstAsked_reaches : Reaches (freely (fun _ => .color) fun _ _ => True)
    (blank {} false fun _ => "") firstAsked := by
  have edited : OfKind (fun _ => .color) { nodes := [⟨.text "a", .color, []⟩] } := by
    intro v n h
    rw [List.mem_singleton.mp (List.mem_of_find?_eq_some h)]
  have there : Reaches (freely (fun _ => .color) fun _ _ => True) (blank {} false fun _ => "")
      { (blank {} false fun _ => "").addEvaluator none with
        graph := { nodes := [⟨.text "a", .color, []⟩] } } :=
    (Relation.ReflTransGen.single (.opens trivial)).tail (.edits edited)
  refine ((there.trans (opened_reaches trivial ?_)).trans (opened_reaches trivial ?_)).trans
    (after_reaches ?_ trivial) <;> decide +kernel

/-- The second pass as it begins. -/
def secondPass : Pass where
  evaluator := 0
  target := .text "a"
  resolution := .pixels 8
  ids := ⟨"", 0⟩
  tasks := [(.text "a", .fresh)]
  visited := [.text "a"]

/-- The engine after the second pass has joined the computation that the first one has asked for, and
the computation has ended. -/
def sharedEnd : Engine :=
  after (after (firstAsked.lookUp 1 secondPass ⟨.text "a", .color, []⟩ []).engine (.run 0))
    (.deliver 1 (.text "a"))

/-- The second pass is handed what the computation of the first one has ended with. -/
theorem entries_and_answers_labelled_shared :
    firstAsked.LooksUp 1 secondPass ⟨.text "a", .color, []⟩ [] ∧
    (∃ q, sharedEnd.passes[1]? = some q ∧ q.result? (.text "a") = some (.ok
      ⟨"<rect x=\"0\" y=\"0\" width=\"8\" height=\"8\" fill=\"rgb(255,255,255)\"/>", []⟩)) ∧
    sharedEnd.Labelled (fun _ => .color) (fun _ _ => True) ⟨.text "a", 8, "", ""⟩
      ⟨"<rect x=\"0\" y=\"0\" width=\"8\" height=\"8\" fill=\"rgb(255,255,255)\"/>", []⟩ := by
  have looked : firstAsked.LooksUp 1 secondPass ⟨.text "a", .color, []⟩ [] :=
    .beginning (q := { secondPass with visited := [] }) (by with_unfolding_all rfl) rfl
      (by with_unfolding_all rfl)
  have later : Reaches (freely (fun _ => .color) fun _ _ => True)
      (firstAsked.lookUp 1 secondPass ⟨.text "a", .color, []⟩ []).engine sharedEnd := by
    unfold sharedEnd
    refine .trans (@after_reaches _ _ (.run 0) ?_ trivial)
      (@after_reaches _ _ (.deliver 1 (.text "a")) ?_ trivial) <;> decide +kernel
  have key : firstAsked.keyFor secondPass.resolution ⟨.text "a", .color, []⟩ [] =
      ⟨.text "a", 8, "", ""⟩ := by decide +kernel
  have handed : ∃ q, sharedEnd.passes[1]? = some q ∧ q.result? (.text "a") = some (.ok
      ⟨"<rect x=\"0\" y=\"0\" width=\"8\" height=\"8\" fill=\"rgb(255,255,255)\"/>", []⟩) :=
    ⟨_, by with_unfolding_all rfl, by with_unfolding_all rfl⟩
  refine ⟨looked, handed, ?_⟩
  obtain ⟨q, hq, hf⟩ := handed
  rw [← key]
  exact (entries_and_answers_labelled firstAsked_reaches).2 1 secondPass _ [] looked sharedEnd later q _ hq hf

end VectorGraph.Engine
