import VectorGraph.Proofs.Engine.Closed
import VectorGraph.Proofs.Engine.Replaced

/-!
Ids of passes that overlap.

A pass goes on from the counter that its evaluator has when it starts, and hands its own counter back when it is
closed. The ids of one pass are therefore drawn in one line, whatever happens in between (`Engine.InLine`), but passes
that overlap count from the same number on: only their salts keep their ids apart (`ids_differ`). Where the salts of all
passes differ, whatever is handed out is closed (`overlapping_fragments_closed`). Where two of them are the same, a later
pass may put definitions together that have one id (`overlapping_ids_collide`).
-/
namespace VectorGraph

open Markup

/-- Nothing in a graph can be taken for the unsafe source of an image. -/
def Graph.Sourced (g : Graph) : Prop := ∀ node ∈ g.nodes, Operator.SafeSource node.params

/-- Whether a node has been asked for and not begun. -/
def Progress.isFresh : Progress → Bool
  | .fresh => true
  | _ => false

namespace Engine

variable {e e' : Engine} {replies : Replies} {draws draws' : Draws} {p : Pass}

/-- Passes overlap as they like, and the graph may be edited at any time. Salts may be empty, or the same. -/
def overlapping (replies : Replies) : Usage where
  replies := replies
  mayOpen _ := True
  mayStart _ salt := ∀ c ∈ salt.toList, Markup.isIdChar c = true
  mayEdit _ g := g.Sourced

/-! ## Computations that are new -/

theorem Looks.params_of_new {k : Nat} {node : Node} {inputs : Inputs} (looks : Looks e k p node inputs e')
    {i : Nat} {d : Computation} (old : e.computations[i]? = none) (new : e'.computations[i]? = some d) :
    d.node = node := by
  cases looks with
  | found entry => cases new.symm.trans old
  | joined missing running shared =>
    dsimp only at new
    rw [List.getElem?_map, old] at new
    cases new
  | started missing idle =>
    dsimp only at new
    rcases getElem?_concat_cases new with there | ⟨-, rfl⟩
    · cases old.symm.trans there
    · rfl

theorem Continues.params_of_new {k : Nat} {v : Label} {kind : Kind} {inputs : List (Label × Label)}
    (continued : Continues e k p v kind inputs e') {i : Nat} {d : Computation}
    (old : e.computations[i]? = none) (new : e'.computations[i]? = some d) :
    d.node.params = e.paramsOf d.node.id := by
  cases continued with
  | looks gathered complete looked => rw [looked.params_of_new old new]
  | _ => cases new.symm.trans old

/-- A computation that is new has the parameters that its node has in the graph. -/
theorem Move.params_of_new (ledger : Ledger replies draws e) (m : Move replies e e') {i : Nat} {d : Computation}
    (old : e.computations[i]? = none) (new : e'.computations[i]? = some d) :
    d.node.params = e.paramsOf d.node.id := by
  have replaced : ∀ {j : Nat} {x : Computation}, e'.computations = e.computations.set j x →
      d.node.params = e.paramsOf d.node.id := by
    intro j x computations
    rw [computations, List.getElem?_eq_none (by simpa using List.getElem?_eq_none_iff.mp old)] at new
    cases new
  cases m with
  | begins pass fresh known continued => exact continued.params_of_new old new
  | proceeds pass gathering ready continued => exact (ledger.goesOn pass gathering continued).params_of_new old new
  | runsOn computation pass queued work => exact replaced rfl
  | runsOut computation pass queued yields => exact replaced rfl
  | replies computation painted allowed => exact replaced rfl
  | _ => cases new.symm.trans old

theorem safeSource_nil : Operator.SafeSource [] := by
  intro source read
  obtain rfl : "" = source := Except.ok.inj read
  decide

theorem safeSource_paramsOf (sourced : e.graph.Sourced) (v : Label) : Operator.SafeSource (e.paramsOf v) := by
  unfold paramsOf
  cases node : e.graph.node? v with
  | none => exact safeSource_nil
  | some n => exact sourced n (List.mem_of_find?_eq_some node)

/-! ## The ids of each pass -/

/-- The runs of each pass draw their ids in one line, with the salt of the pass. -/
structure InLine (draws : Draws) (e : Engine) : Prop where
  salted : ∀ (k : Nat) (p : Pass), e.passes[k]? = some p → p.ids.Salted
  drawn : ∀ (i : Nat) (c : Computation) (p : Pass), e.Ran i c → e.passes[c.pass]? = some p →
    (draws i).salt = p.ids.salt ∧ (e.left draws i c).counter ≤ p.ids.counter
  apart : ∀ (i j : Nat) (c d : Computation), e.Ran i c → e.Ran j d → i ≠ j → c.pass = d.pass →
    (e.left draws i c).counter ≤ (draws j).counter ∨ (e.left draws j d).counter ≤ (draws i).counter

namespace InLine

theorem salted_of_ran (h : InLine draws e) (ledger : Ledger replies draws e) {i : Nat} {c : Computation}
    (ran : e.Ran i c) : (draws i).Salted := by
  obtain ⟨p, hp⟩ := ledger.passes i c ran.1
  unfold IdSource.Salted
  rw [(h.drawn i c p ran hp).1]
  exact h.salted _ p hp

/-- Where no operator is run no id is drawn. -/
theorem kept (h : InLine draws e) (ledger : Ledger replies draws e) (unrun : Unrun e e') (grows : Grows e e')
    (new : ∀ (k : Nat) (p : Pass), e.passes[k]? = none → e'.passes[k]? = some p → p.ids.Salted) :
    InLine draws e' := by
  -- a run that is over was over before, in the same pass
  have back : ∀ {i : Nat} {d : Computation}, e'.Ran i d → ∃ c, e.Ran i c ∧ d.pass = c.pass ∧
      e'.left draws i d = e.left draws i c := by
    intro i d ran
    obtain ⟨c, hc, same⟩ := Apart.back ledger unrun grows ran
    obtain ⟨d', hd', later⟩ := grows.computations i c hc.1
    obtain rfl := Option.some.inj (ran.1.symm.trans hd')
    exact ⟨c, hc, later.pass, same draws⟩
  refine ⟨fun k q hq => ?_, fun i d q ran hq => ?_, fun i j c d ran ran' other same => ?_⟩
  · cases hp : e.passes[k]? with
    | none => exact new k q hp hq
    | some p =>
      rw [(unrun.passes k p q hp hq).2]
      exact h.salted k p hp
  · obtain ⟨c, ran, pass, left⟩ := back ran
    obtain ⟨p, hp⟩ := ledger.passes i c ran.1
    rw [pass] at hq
    rw [left, (unrun.passes _ p q hp hq).2]
    exact h.drawn i c p ran hp
  · obtain ⟨c', ran, pass, left⟩ := back ran
    obtain ⟨d', ran', pass', left'⟩ := back ran'
    rw [left, left']
    exact h.apart i j c' d' ran ran' other (pass.symm.trans (same.trans pass'))

/-- A run goes on from where the pass stands. -/
theorem run (h : InLine draws e) (ledger : Ledger replies draws e) (grows : Grows e e') {i : Nat}
    {c d : Computation} (hc : e.computations[i]? = some c) (pass : e.passes[c.pass]? = some p)
    (computations : e'.computations = e.computations.set i d)
    (passes : e'.passes = e.passes.set c.pass
      { p with computed := p.computed ++ [c.node.id], ids := (e.workOf p c).2 })
    (before : p.ids.Before (e.workOf p c).2) : InLine (Function.update draws i p.ids) e' := by
  have cases_of := fun (j : Nat) (x : Computation) =>
    Apart.back_or_run (j := j) (x := x) ledger grows hc pass computations
  have start : ∀ {j : Nat}, j ≠ i → Function.update draws i p.ids j = draws j :=
    fun hj => Function.update_of_ne hj _ _
  -- a pass of the later state is that of the run, or one of the earlier state
  have pass_of : ∀ {k : Nat} {q : Pass}, e'.passes[k]? = some q →
      (k = c.pass ∧ q.ids = (e.workOf p c).2) ∨ (k ≠ c.pass ∧ e.passes[k]? = some q) := by
    intro k q hq
    rw [passes] at hq
    rcases getElem?_set_cases hq with ⟨same, rfl⟩ | other
    · exact .inl ⟨same, rfl⟩
    · exact .inr other
  refine ⟨fun k q hq => ?_, fun j x q ran hq => ?_, fun j l x y ran ran' other same => ?_⟩
  · rcases pass_of hq with ⟨-, ids⟩ | ⟨-, hq⟩
    · rw [ids]
      exact before.salted (h.salted _ p pass)
    · exact h.salted k q hq
  · rcases cases_of j x ran with ⟨rfl, mine, leaves⟩ | ⟨hj, ran, leaves⟩
    · rcases pass_of hq with ⟨-, ids⟩ | ⟨theirs, -⟩
      · rw [leaves, ids, Function.update_self]
        exact ⟨before.salt.symm, Int.le_refl _⟩
      · exact absurd mine theirs
    · rw [leaves, start hj]
      rcases pass_of hq with ⟨mine, ids⟩ | ⟨-, hq⟩
      · obtain ⟨salt, below⟩ := h.drawn j x p ran (mine ▸ pass)
        rw [ids, before.salt]
        exact ⟨salt, Int.le_trans below before.counter⟩
      · exact h.drawn j x q ran hq
  · rcases cases_of j x ran with ⟨rfl, mine, leaves⟩ | ⟨hj, ran, leaves⟩ <;>
      rcases cases_of l y ran' with ⟨rfl, mine', leaves'⟩ | ⟨hl, ran', leaves'⟩
    · exact absurd rfl other
    · refine .inr ?_
      rw [leaves', Function.update_self]
      exact (h.drawn l y p ran' (by rw [← same, mine]; exact pass)).2
    · refine .inl ?_
      rw [leaves, Function.update_self]
      exact (h.drawn j x p ran (by rw [same, mine']; exact pass)).2
    · rw [leaves, leaves', start hj, start hl]
      exact h.apart j l x y ran ran' other same

/-- Runs draw different ids, unless they are of two passes with one salt. -/
theorem differ (h : InLine draws e) {i j : Nat} {c d : Computation} {p q : Pass} (ran : e.Ran i c) (ran' : e.Ran j d)
    (other : i ≠ j) (pass : e.passes[c.pass]? = some p) (pass' : e.passes[d.pass]? = some q)
    (salts : c.pass = d.pass ∨ p.ids.salt ≠ q.ids.salt) {x : String}
    (minted : (draws i).Minted (e.left draws i c) x) : ¬ (draws j).Minted (e.left draws j d) x := by
  intro minted'
  rcases salts with same | differ
  · rcases h.apart i j c d ran ran' other same with before | before
    · exact minted.ne minted' before rfl
    · exact minted'.ne minted before rfl
  · refine minted.ne_of_salt minted' ?_ rfl
    rw [(h.drawn i c p ran pass).1, (h.drawn j d q ran' pass').1]
    exact differ

end InLine

/-- What is true of every state where passes overlap. -/
structure Overlaps (replies : Replies) (draws : Draws) (e : Engine) : Prop where
  ledger : Ledger replies draws e
  graph : e.graph.Sourced
  params : ∀ (i : Nat) (c : Computation), e.computations[i]? = some c → Operator.SafeSource c.node.params
  told : ∀ (k : Nat) (p : Pass), e.passes[k]? = some p → ∀ r, p.result = some r → p.result? p.target = some r
  inLine : InLine draws e

namespace Overlaps

theorem nodes (h : Overlaps replies draws e) (i : Nat) (c : Computation) (hc : e.computations[i]? = some c) :
    c.node.Safe := fun _ => h.params i c hc

theorem salted (h : Overlaps replies draws e) (i : Nat) (c : Computation) (ran : e.Ran i c) : (draws i).Salted :=
  h.inLine.salted_of_ran h.ledger ran

/-- Whatever the change, the ids of each pass go on in one line. -/
theorem draws_on (h : Overlaps replies draws e) (grows : Grows e e') (drawn : Drawn draws e draws' e')
    (new : ∀ (k : Nat) (p : Pass), e.passes[k]? = none → e'.passes[k]? = some p → p.ids.Salted) :
    InLine draws' e' := by
  cases drawn with
  | kept unrun => exact h.inLine.kept h.ledger unrun grows new
  | @run _ i c d p computation queued pass computations begun passes =>
    have proper := (h.ledger.derived h.nodes h.salted i c computation).1
    have before : p.ids.Before (e.workOf p c).2 :=
      (c.node.kind.derives _ _ _ _ (h.nodes i c computation) (h.inLine.salted _ p pass) proper).before
    exact h.inLine.run h.ledger grows computation pass computations passes before

/-- Computations and passes that were there before are the only ones. -/
theorem congr (h : Overlaps replies draws e) (ledger : Ledger replies draws' e') (graph : e'.graph.Sourced)
    (passes : e'.passes = e.passes) (computations : e'.computations = e.computations) (grows : Grows e e')
    (drawn : Drawn draws e draws' e') : Overlaps replies draws' e' := by
  refine ⟨ledger, graph, computations ▸ h.params, passes ▸ h.told, h.draws_on grows drawn fun k p old new => ?_⟩
  rw [passes, old] at new
  cases new

/-- A step of a pass. -/
theorem step (h : Overlaps replies draws e) (m : Move replies e e') (ledger : Ledger replies draws' e')
    (grows : Grows e e') (drawn : Drawn draws e draws' e') : Overlaps replies draws' e' := by
  have length := m.length_passes h.ledger
  refine ⟨ledger, m.graph h.ledger ▸ h.graph, fun i d hd => ?_, fun k q hq r hr => ?_,
    h.draws_on grows drawn fun k p old new => ?_⟩
  · cases hc : e.computations[i]? with
    | some c =>
      obtain ⟨d', hd', later⟩ := grows.computations i c hc
      obtain rfl := Option.some.inj (hd.symm.trans hd')
      rw [later.node]
      exact h.params i c hc
    | none =>
      rw [m.params_of_new h.ledger hc hd]
      exact safeSource_paramsOf h.graph _
  · obtain ⟨q₀, old⟩ : ∃ q₀, e.passes[k]? = some q₀ :=
      ⟨_, List.getElem?_eq_getElem (length ▸ (List.getElem?_eq_some_iff.mp hq).1)⟩
    obtain ⟨q', hq', later⟩ := grows.passes k _ old
    obtain rfl := Option.some.inj (hq.symm.trans hq')
    rw [later.target]
    apply later.results
    -- A pass has its result from the step that closes it; every other step leaves the results alone.
    rcases m.closes_or h.ledger with ⟨j, p, s, hp, open_, finished, rfl⟩ | ⟨-, kept⟩
    · rcases getElem?_set_cases hq with ⟨rfl, rfl⟩ | ⟨-, unmoved⟩
      · obtain rfl := Option.some.inj (hp.symm.trans old)
        obtain rfl := Option.some.inj hr
        exact finished
      · rw [Option.some.inj (unmoved.symm.trans old)] at hr
        exact h.told k _ old r hr
    · rw [kept k _ q old hq] at hr
      exact h.told k _ old r hr
  · have short := List.getElem?_eq_none_iff.mp old
    have long := (List.getElem?_eq_some_iff.mp new).1
    omega

/-- A pass is started. -/
theorem start {n : Nat} {target : Label} {salt : String} (h : Overlaps replies draws e)
    (salted : ∀ c ∈ salt.toList, Markup.isIdChar c = true) (s : Started e n target salt p e')
    (ledger : Ledger replies draws' e') (grows : Grows e e') (drawn : Drawn draws e draws' e') :
    Overlaps replies draws' e' := by
  obtain ⟨log, rfl⟩ := s.state
  have added : ∀ (k : Nat) (q : Pass), (e.passes ++ [p])[k]? = some q → e.passes[k]? = some q ∨ q = p :=
    fun k q hq => (getElem?_concat_cases hq).imp_right And.right
  refine ⟨ledger, h.graph, h.params, fun k q hq r hr => ?_, h.draws_on grows drawn fun k q old new => ?_⟩
  · rcases added k q hq with old | rfl
    · exact h.told k q old r hr
    · rw [s.result] at hr
      cases hr
  · rcases added k q new with hq | rfl
    · rw [old] at hq
      cases hq
    · rw [s.ids]
      exact salted

/-- Every change is one of a state in which passes overlap. -/
theorem change (h : Overlaps replies draws e) (m : Change (overlapping replies) e e') :
    ∃ draws', Overlaps replies draws' e' := by
  obtain ⟨draws', ledger, grows, drawn⟩ := m.upkeep h.ledger
  refine ⟨draws', ?_⟩
  cases m with
  | steps step allowed => exact h.step (move_of_step step allowed) ledger grows drawn
  | opens may =>
    refine h.congr ledger ?_ ?_ ?_ grows drawn
    · unfold addEvaluator
      dsimp only
      split <;> exact h.graph
    all_goals
      unfold addEvaluator
      dsimp only
      split <;> rfl
  | starts may there started =>
    obtain ⟨p, -, s⟩ := started_of_start started
    exact h.start may s ledger grows drawn
  | edits may => exact h.congr ledger may rfl rfl grows drawn
  | invalidates there => exact h.congr ledger h.graph rfl rfl grows drawn
  | clears there => exact h.congr ledger h.graph rfl rfl grows drawn

theorem blank (replies : Replies) (settings : Settings) (canRender : Bool) (digest : Digest) (draws : Draws) :
    Overlaps replies draws (blank settings canRender digest) where
  ledger := blank_ledger replies settings canRender digest draws
  graph node there := by cases there
  params i c h := by simp [Engine.blank] at h
  told k p h := by simp [Engine.blank] at h
  inLine := ⟨fun k p h => by simp [Engine.blank] at h, fun i c p ran => by simp [Engine.blank, Ran] at ran,
    fun i j c d ran => by simp [Engine.blank, Ran] at ran⟩

end Overlaps

variable {settings : Settings} {canRender : Bool} {digest : Digest}

theorem Reaches.overlaps (run : Reaches (overlapping replies) (blank settings canRender digest) e) :
    ∃ draws, Overlaps replies draws e := by
  induction run with
  | refl => exact ⟨fun _ => default, .blank replies settings canRender digest _⟩
  | tail _ change ih =>
    obtain ⟨draws, overlaps⟩ := ih
    exact overlaps.change change

/-- However passes overlap: two runs of operators mint one id only if they are runs of two passes that have the same
salt. -/
theorem ids_differ (run : Reaches (overlapping replies) (blank settings canRender digest) e) :
    ∃ draws, Ledger replies draws e ∧ ∀ (i j : Nat) (c d : Computation) (p q : Pass), e.Ran i c → e.Ran j d →
      i ≠ j → e.passes[c.pass]? = some p → e.passes[d.pass]? = some q →
      c.pass = d.pass ∨ p.ids.salt ≠ q.ids.salt → ∀ x, (draws i).Minted (e.left draws i c) x →
      ¬ (draws j).Minted (e.left draws j d) x := by
  obtain ⟨draws, overlaps⟩ := run.overlaps
  exact ⟨draws, overlaps.ledger, fun i j c d p q ran ran' other pass pass' salts x =>
    overlaps.inLine.differ ran ran' other pass pass' salts⟩

/-- However passes overlap, as long as no two of them have the same salt: every fragment that is returned is closed, and
so is the document that is made of it. -/
theorem overlapping_fragments_closed (run : Reaches (overlapping replies) (blank settings canRender digest) e)
    (salts : (e.passes.map (·.ids.salt)).Nodup) {k : Nat} {f : Fragment} (pass : e.passes[k]? = some p)
    (returned : p.result = some (.ok f)) :
    f.Closed ∧ ClosedText (svgDocument f.markup f.defs p.resolution p.resolution p.resolution) := by
  obtain ⟨draws, overlaps⟩ := run.overlaps
  have ledger := overlaps.ledger
  refine ledger.closed overlaps.nodes overlaps.salted ?_ pass (overlaps.told k p pass _ returned)
  intro i j c d ran ran' other x
  obtain ⟨q, hq⟩ := ledger.passes i c ran.1
  obtain ⟨s, hs⟩ := ledger.passes j d ran'.1
  refine overlaps.inLine.differ ran ran' other hq hs (or_iff_not_imp_right.mpr fun same => ?_)
  -- a salt stands at one place only
  have there : c.pass < (e.passes.map (·.ids.salt)).length := by
    rw [List.length_map]
    exact (List.getElem?_eq_some_iff.mp hq).1
  refine (List.getElem?_inj there salts).mp ?_
  rw [List.getElem?_map, List.getElem?_map, hq, hs]
  exact congrArg some (not_not.mp same)

/-! ## Passes with one salt -/

/-- A node that takes its inputs side by side begins by gathering them. -/
theorem after_begin {k : Nat} {v : Label} {n : Node} {inputs : List (Label × Label)} (pass : e.passes[k]? = some p)
    (fresh : p.progress? v = some .fresh) (node : e.graph.node? v = some n)
    (sideBySide : e.settings.concurrentSiblings = true) (sorted : e.sortedInputs v = inputs) (some_ : inputs ≠ []) :
    e.after (.begin k v) = e.setPass k ((visit p v).set v (.gathering ⟨n.kind, inputs, inputs⟩)) := by
  have begun : (e.begin k p v).engine = e.setPass k ((visit p v).set v (.gathering ⟨n.kind, inputs, inputs⟩)) := by
    simp [begin, node, sideBySide, sorted, some_, visit]
  simp [after, step, pass, fresh, begun]

/-- An engine whose graph joins two blurs of one colour. Salts are empty. -/
def twoBlurs : Engine :=
  { (blank { idSaltLength := 0 } false Studio.fullDigest).addEvaluator none with
    graph :=
      { nodes := [⟨.text "c", .color, []⟩, ⟨.text "a", .softBlur, [("radius", .whole 3)]⟩,
          ⟨.text "b", .softBlur, [("radius", .whole 7)]⟩, ⟨.text "u", .union, []⟩]
        edges := [⟨.text "c", .text "out", .text "a", .text "in"⟩,
          ⟨.text "c", .text "out", .text "b", .text "in"⟩,
          ⟨.text "a", .text "out", .text "u", .text "a"⟩,
          ⟨.text "b", .text "out", .text "u", .text "b"⟩] } }

/-- Passes for both blurs are open before anything is computed. -/
def bothOpen : Engine := (twoBlurs.opened (.text "a") (.whole 8) "").opened (.text "b") (.whole 8) ""

/-- The events of the two passes. -/
def bothEvents : List Event :=
  [.begin 0 (.text "a"), .begin 1 (.text "b"), .launch 0 (.text "a"), .begin 0 (.text "c"), .run 0,
    .deliver 0 (.text "c"), .proceed 0 (.text "a"), .run 1, .deliver 0 (.text "a"), .close 0,
    .launch 1 (.text "b"), .begin 1 (.text "c"), .proceed 1 (.text "b"), .run 2, .deliver 1 (.text "b"), .close 1]

/-- Both blurs are in the cache, and a pass for the union is open. -/
def unionOpen : Engine := (bothEvents.foldl after bothOpen).opened (.text "u") (.whole 8) ""

/-- The pass for the union. -/
def unionPass : Pass :=
  (unionOpen.passes[2]?).getD { evaluator := 0, target := .text "u", resolution := .pixels 8, ids := ⟨"", 0⟩ }

/-- The inputs of the union. -/
def unionInputs : List (Label × Label) := [(.text "a", .text "a"), (.text "b", .text "b")]

/-- The union gathers its inputs. -/
def unionBegun : Engine :=
  unionOpen.setPass 2 ((visit unionPass (.text "u")).set (.text "u") (.gathering ⟨.union, unionInputs, unionInputs⟩))

/-- What is left to do for the union, whose inputs are both found in the cache. -/
def unionEvents : List Event :=
  [.launch 2 (.text "u"), .begin 2 (.text "a"), .launch 2 (.text "a"), .begin 2 (.text "c"), .proceed 2 (.text "a"),
    .begin 2 (.text "b"), .launch 2 (.text "b"), .proceed 2 (.text "b"), .proceed 2 (.text "u"), .run 3,
    .deliver 2 (.text "u"), .close 2]

theorem sourced_twoBlurs : twoBlurs.graph.Sourced := by
  intro node mem source read
  simp only [twoBlurs, List.mem_cons, List.not_mem_nil, or_false] at mem
  rcases mem with rfl | rfl | rfl | rfl <;> obtain rfl : "" = source := Except.ok.inj read <;> decide

/-- The union begins by gathering. -/
theorem after_begin_union : unionOpen.after (.begin 2 (.text "u")) = unionBegun := by
  have pass : unionOpen.passes[2]? = some unionPass := by
    have there : (unionOpen.passes[2]?).isSome = true := by decide +kernel
    obtain ⟨p, hp⟩ := Option.isSome_iff_exists.mp there
    rw [unionPass, hp]
    rfl
  have kind : (unionOpen.graph.node? (.text "u")).map (·.kind) = some .union := by decide +kernel
  obtain ⟨n, node, kind⟩ := Option.map_eq_some_iff.mp kind
  have fresh : unionPass.progress? (.text "u") = some .fresh := by
    have told : (unionPass.progress? (.text "u")).map (·.isFresh) = some true := by decide +kernel
    obtain ⟨progress, there, told⟩ := Option.map_eq_some_iff.mp told
    cases progress with
    | fresh => exact there
    | _ => cases told
  have sorted : unionOpen.sortedInputs (.text "u") = unionInputs := by
    have inputs : unionOpen.graph.inputsOf (.text "u") = unionInputs := by decide +kernel
    rw [sortedInputs, inputs]
    exact List.mergeSort_of_pairwise (by decide +kernel)
  rw [after_begin pass fresh node (by decide +kernel) sorted (by decide), kind]
  rfl

/-- Passes for the two blurs overlap and have the same salt. Both count from zero on, and the pass for the union, which
takes both blurs from the cache, puts two definitions with one id together. -/
theorem overlapping_ids_collide : ∃ (e : Engine) (p : Pass) (f : Fragment),
    Reaches (overlapping fun _ _ => True) (blank { idSaltLength := 0 } false Studio.fullDigest) e ∧
    e.evaluators.length = 1 ∧ e.passes.map (·.computed) = [[.text "c", .text "a"], [.text "b"], [.text "u"]] ∧
    e.passes[2]? = some p ∧ p.result = some (.ok f) ∧ f.defs.flatMap definitions = ["blur_1_", "blur_1_"] ∧
    ¬ f.Closed := by
  have unsalted : ∀ c ∈ "".toList, isIdChar c = true := by simp
  have edited : Reaches (overlapping fun _ _ => True) (blank { idSaltLength := 0 } false Studio.fullDigest) twoBlurs :=
    (Relation.ReflTransGen.single (.opens trivial)).tail (.edits sourced_twoBlurs)
  have opened : Reaches (overlapping fun _ _ => True) twoBlurs bothOpen :=
    (opened_reaches unsalted (by decide)).trans (opened_reaches unsalted (by decide +kernel))
  have blurred : Reaches (overlapping fun _ _ => True) bothOpen unionOpen :=
    (Reaches.follow (fun _ _ => trivial) bothEvents .refl (by decide +kernel)).trans (opened_reaches unsalted (by decide +kernel))
  have begun : Reaches (overlapping fun _ _ => True) unionOpen unionBegun := by
    have able : (unionOpen.step (.begin 2 (.text "u"))).isSome = true := by decide +kernel
    rw [← after_begin_union]
    exact after_reaches able trivial
  have joined : Reaches (overlapping fun _ _ => True) unionBegun (unionEvents.foldl after unionBegun) :=
    .follow (fun _ _ => trivial) unionEvents .refl (by decide +kernel)
  have run := (((edited.trans opened).trans blurred).trans begun).trans joined
  have single : (unionEvents.foldl after unionBegun).evaluators.length = 1 := by decide +kernel
  have computed : (unionEvents.foldl after unionBegun).passes.map (·.computed) =
      [[.text "c", .text "a"], [.text "b"], [.text "u"]] := by decide +kernel
  have record : ((unionEvents.foldl after unionBegun).passes[2]?).map (fun p =>
      (p.result.bind Except.toOption).map fun f => f.defs.flatMap definitions) = some (some ["blur_1_", "blur_1_"]) := by
    decide +kernel
  obtain ⟨p, pass, record⟩ := Option.map_eq_some_iff.mp record
  obtain ⟨f, returned, ids⟩ := Option.map_eq_some_iff.mp record
  obtain ⟨r, result, ok⟩ := Option.bind_eq_some_iff.mp returned
  cases r with
  | error failure => cases ok
  | ok g =>
    obtain rfl := Option.some.inj ok
    refine ⟨_, p, g, run, single, computed, pass, result, ids, fun closed => ?_⟩
    have once := closed.once
    rw [ids] at once
    exact absurd once (by decide)

end Engine

end VectorGraph
