import VectorGraph.Proofs.Engine.Tasks

/-!
What a step of the engine can do, said once.

`Engine.Move` lists the ways in which one state follows on another, each with what made it possible
and with the whole state that it leaves; `Engine.move_of_step` reads it off `Engine.step`. Everything
that is proved about runs of the engine goes through these cases and never opens the steps again.

The back-end is given by the replies that it may make to a request: any reply at all, or the value of
a function.
-/
namespace VectorGraph

/-- The replies that a back-end may make to a request. -/
abbrev Replies := RasterRequest → Except RasterFault Picture → Prop

/-- Whether a result can come of what an operator did at once. -/
def Work.Yields (replies : Replies) : Except Failure Work → Except Failure Fragment → Prop
  | .error failure, r => r = .error failure
  | .ok (.done outcome), r => r = outcome.result
  | .ok (.paint request resume), r => ∃ reply, replies request reply ∧ r = (resume reply).result

namespace Engine

variable {e : Engine}

/-! ## Looking up and going on -/

/-- The ways in which a look-up ends: with an entry, at a computation under way, or at a new one. -/
inductive Looks (e : Engine) (index : Nat) (p : Pass) (node : Node) (inputs : Inputs) :
    Engine → Prop where
  | found {f : Fragment}
      (entry : (e.cacheOf p.evaluator).find? (e.keyFor p.resolution node inputs) = some f) :
      Looks e index p node inputs
        ((e.setCache p.evaluator
          { (e.cacheOf p.evaluator).touch (e.keyFor p.resolution node inputs) with
            hits := (e.cacheOf p.evaluator).hits + 1 }).setPass index
          (p.set node.id (.finished (.ok f))))
  | joined {ticket : Nat} {isShared : Computation → Bool}
      (missing : (e.cacheOf p.evaluator).find? (e.keyFor p.resolution node inputs) = none)
      (running : (e.cacheOf p.evaluator).ticketOf? (e.keyFor p.resolution node inputs) = some ticket)
      (shared : isShared = fun c => c.store == e.storeOf p.evaluator && c.ticket == ticket) :
      Looks e index p node inputs
        { (e.setCache p.evaluator { e.cacheOf p.evaluator with
              hits := (e.cacheOf p.evaluator).hits + 1 }).setPass index
            (p.set node.id (.waiting (e.computations.findIdx isShared))) with
          computations := e.computations.map fun c =>
            if isShared c then { c with waiters := c.waiters ++ [(index, node.id)] } else c }
  | started
      (missing : (e.cacheOf p.evaluator).find? (e.keyFor p.resolution node inputs) = none)
      (idle : (e.cacheOf p.evaluator).ticketOf? (e.keyFor p.resolution node inputs) = none) :
      Looks e index p node inputs
        { (e.setCache p.evaluator { e.cacheOf p.evaluator with
              running := (e.cacheOf p.evaluator).running ++
                [((e.cacheOf p.evaluator).issued, e.keyFor p.resolution node inputs)]
              issued := (e.cacheOf p.evaluator).issued + 1
              misses := (e.cacheOf p.evaluator).misses + 1 }).setPass index
            (p.set node.id (.waiting e.computations.length)) with
          computations := e.computations ++
            [{ store := e.storeOf p.evaluator, ticket := (e.cacheOf p.evaluator).issued,
               pass := index, node, inputs, waiters := [(index, node.id)] }] }

theorem lookUp_looks (e : Engine) (index : Nat) (p : Pass) (node : Node) (inputs : Inputs) :
    Looks e index p node inputs (e.lookUp index p node inputs).engine := by
  unfold lookUp Cache.request
  cases hf : (e.cacheOf p.evaluator).find? (e.keyFor p.resolution node inputs) with
  | some f => exact .found hf
  | none =>
    cases ht : (e.cacheOf p.evaluator).ticketOf? (e.keyFor p.resolution node inputs) with
    | some ticket => exact .joined hf ht rfl
    | none => exact .started hf ht

/-- The ways in which a node goes on with inputs some of whose sources are finished. -/
inductive Continues (e : Engine) (index : Nat) (p : Pass) (v : Label) (kind : Kind)
    (inputs : List (Label × Label)) : Engine → Prop where
  | fails {failure : Failure}
      (gathered : p.Gathers e.settings.concurrentSiblings inputs (.error failure)) :
      Continues e index p v kind inputs (e.setPass index (p.set v (.finished (.error failure))))
  | misses {got : Inputs} {socket : String}
      (gathered : p.Gathers e.settings.concurrentSiblings inputs (.ok got))
      (missing : kind.requiredSockets.find? (fun s => !got.any (·.1 == s)) = some socket) :
      Continues e index p v kind inputs
        (e.setPass index (p.set v (.finished (.error (.graph (.missingInput v socket))))))
  | looks {e' : Engine} {got : Inputs}
      (gathered : p.Gathers e.settings.concurrentSiblings inputs (.ok got))
      (complete : kind.requiredSockets.find? (fun s => !got.any (·.1 == s)) = none)
      (looked : Looks e index p ⟨v, kind, e.paramsOf v⟩ got e') :
      Continues e index p v kind inputs e'
  | awaits {taken rest : List (Label × Label)} {socket source : Label}
      (oneByOne : e.settings.concurrentSiblings = false)
      (split : inputs = taken ++ (socket, source) :: rest)
      (passed : ∀ i ∈ taken, ∃ r, p.result? i.2 = some r ∧ Pass.Passable r)
      (open_ : p.result? source = none) :
      Continues e index p v kind inputs
        (e.setPass index ((p.set v (.gathering ⟨kind, inputs, (socket, source) :: rest⟩)).ask source))

theorem conclude_continues {index : Nat} {p : Pass} {v : Label} (needs : Gathering)
    (finished : ∀ i ∈ needs.inputs, ∃ r, p.result? i.2 = some r ∧
      (e.settings.concurrentSiblings = false → Pass.Passable r)) :
    Continues e index p v needs.kind needs.inputs (e.conclude index p v needs).engine := by
  have gathered : p.Gathers e.settings.concurrentSiblings needs.inputs (p.collect needs.inputs) :=
    .all finished
  unfold conclude
  split
  · next failure hc =>
    rw [hc] at gathered
    exact .fails gathered
  · next got hc =>
    rw [hc] at gathered
    split
    · next socket hs => exact .misses gathered hs
    · next hs => exact .looks gathered hs (lookUp_looks e index p _ got)

theorem takeIn_continues {index : Nat} {p : Pass} {v : Label} (needs : Gathering)
    (oneByOne : e.settings.concurrentSiblings = false) (pending : List (Label × Label)) :
    ∀ taken : List (Label × Label), needs.inputs = taken ++ pending →
    (∀ i ∈ taken, ∃ r, p.result? i.2 = some r ∧ Pass.Passable r) →
    Continues e index p v needs.kind needs.inputs (e.takeIn index p v needs pending).engine := by
  induction pending with
  | nil =>
    intro taken split passed
    rw [List.append_nil] at split
    refine conclude_continues needs fun i hi => ?_
    obtain ⟨r, hr, hp⟩ := passed i (split ▸ hi)
    exact ⟨r, hr, fun _ => hp⟩
  | cons next rest ih =>
    obtain ⟨socket, source⟩ := next
    intro taken split passed
    -- the next input is taken in like those before it
    have shifted : ∀ r, p.result? source = some r → Pass.Passable r →
        Continues e index p v needs.kind needs.inputs (e.takeIn index p v needs rest).engine := by
      intro r hr hp
      refine ih (taken ++ [(socket, source)]) (by simp [split]) fun i hi => ?_
      rcases List.mem_append.mp hi with hi | hi
      · exact passed i hi
      · rw [List.mem_singleton] at hi
        exact ⟨r, hi ▸ hr, hp⟩
    unfold takeIn
    split
    · next failure hr =>
      split
      · next hg => exact shifted _ hr fun _ heq => Except.error.inj heq ▸ hg
      · next hg => exact .fails (.early oneByOne split passed hr (by simpa using hg))
    · next f hr => exact shifted _ hr fun _ heq => by cases heq
    · next hr => exact .awaits oneByOne split passed hr

/-! ## Moves -/

/-- The pass after a node has begun. -/
def visit (p : Pass) (v : Label) : Pass := { p with visited := p.visited ++ [v] }

/-- The state in which a pass has run the operator of a computation, before anything comes of it. -/
def ran (e : Engine) (c : Computation) (p : Pass) (lines : List String) : Engine :=
  { e.setPass c.pass { p with computed := p.computed ++ [c.node.id], ids := (e.workOf p c).2 } with
    log := lines }

/-- The state in which the operator of a computation has asked for pixels. -/
def painting (e : Engine) (index : Nat) (c : Computation) (request : RasterRequest)
    (resume : Except RasterFault Picture → Outcome) : Engine :=
  { e with
    computations := e.computations.set index { c with stage := .painting request resume }
    requests := e.requests ++ [request] }

/-- The state in which a computation has ended. -/
def ended (e : Engine) (index : Nat) (c : Computation) (result : Except Failure Fragment)
    (lines : List String) : Engine :=
  { e with
    caches := e.caches.set c.store ((e.caches.getD c.store default).settle c.ticket result).2
    computations := e.computations.set index
      { c with stage := .ended ((e.caches.getD c.store default).settle c.ticket result).1 }
    log := lines }

/-- The ways in which one state follows on another. -/
inductive Move (replies : Replies) (e : Engine) : Engine → Prop where
  /-- A node begins that is not in the graph. -/
  | absent {index : Nat} {p : Pass} {v : Label} (pass : e.passes[index]? = some p)
      (fresh : p.progress? v = some .fresh) (unknown : e.graph.node? v = none) :
      Move replies e
        (e.setPass index ((visit p v).set v (.finished (.error .missingEntry))))
  /-- A node begins that takes its inputs side by side. -/
  | gathers {index : Nat} {p : Pass} {v : Label} {n : Node} (pass : e.passes[index]? = some p)
      (fresh : p.progress? v = some .fresh) (known : e.graph.node? v = some n)
      (sideBySide : e.settings.concurrentSiblings = true) (some_ : e.sortedInputs v ≠ []) :
      Move replies e
        (e.setPass index ((visit p v).set v (.gathering ⟨n.kind, e.sortedInputs v, e.sortedInputs v⟩)))
  /-- A node begins that can go on at once. -/
  | begins {e' : Engine} {index : Nat} {p : Pass} {v : Label} {n : Node} (pass : e.passes[index]? = some p)
      (fresh : p.progress? v = some .fresh) (known : e.graph.node? v = some n)
      (continued : Continues e index (visit p v) v n.kind (e.sortedInputs v) e') :
      Move replies e e'
  /-- A node asks for all its sources. -/
  | launches {index : Nat} {p : Pass} {v : Label} {needs : Gathering} {sources : List Label}
      (pass : e.passes[index]? = some p) (gathering : p.progress? v = some (.gathering needs))
      (sideBySide : e.settings.concurrentSiblings = true) (unasked : needs.pending ≠ [])
      (all : ∀ s, s ∈ sources ↔ ∃ i ∈ needs.inputs, i.2 = s) :
      Move replies e (e.setPass index
        (sources.foldl Pass.ask (p.set v (.gathering { needs with pending := [] }))))
  /-- A node goes on, since the sources that it awaits are finished. Inputs that were taken in before
  could be taken in. -/
  | proceeds {e' : Engine} {index : Nat} {p : Pass} {v : Label} {needs : Gathering}
      (pass : e.passes[index]? = some p) (gathering : p.progress? v = some (.gathering needs))
      (ready : needs.isReady e.settings.concurrentSiblings p = true)
      (continued : (∀ taken, e.settings.concurrentSiblings = false →
          needs.inputs = taken ++ needs.pending →
          (∀ i ∈ taken, ∃ r, p.result? i.2 = some r ∧ Pass.Passable r) →
          Continues e index p v needs.kind needs.inputs e') ∧
        (e.settings.concurrentSiblings = true → Continues e index p v needs.kind needs.inputs e')) :
      Move replies e e'
  /-- An operator runs and asks for pixels. -/
  | runsOn {index : Nat} {c : Computation} {p : Pass} {request : RasterRequest}
      {resume : Except RasterFault Picture → Outcome} {lines : List String}
      (computation : e.computations[index]? = some c) (pass : e.passes[c.pass]? = some p)
      (queued : c.stage = .queued) (work : (e.workOf p c).1 = .ok (.paint request resume)) :
      Move replies e ((e.ran c p lines).painting index c request resume)
  /-- An operator runs to its end. -/
  | runsOut {index : Nat} {c : Computation} {p : Pass} {result : Except Failure Fragment}
      {lines lines' : List String}
      (computation : e.computations[index]? = some c) (pass : e.passes[c.pass]? = some p)
      (queued : c.stage = .queued) (result_ : Work.Yields replies (e.workOf p c).1 result) :
      Move replies e ((e.ran c p lines).ended index c result lines')
  /-- The back-end replies. -/
  | replies {index : Nat} {c : Computation} {request : RasterRequest}
      {resume : Except RasterFault Picture → Outcome} {reply : Except RasterFault Picture}
      {lines : List String}
      (computation : e.computations[index]? = some c) (painted : c.stage = .painting request resume)
      (allowed : replies request reply) :
      Move replies e (e.ended index c (resume reply).result lines)
  /-- The result of a computation reaches a node. -/
  | delivers {index : Nat} {p : Pass} {v : Label} {i : Nat} {c : Computation}
      {result : Except Failure Fragment} (pass : e.passes[index]? = some p)
      (waiting : p.progress? v = some (.waiting i)) (computation : e.computations[i]? = some c)
      (stage : c.stage = .ended result) :
      Move replies e (e.setPass index (p.set v (.finished result)))
  /-- A pass is closed. -/
  | closes {index : Nat} {p : Pass} {result : Except Failure Fragment}
      (pass : e.passes[index]? = some p) (unclosed : p.result = none)
      (finished : p.result? p.target = some result) :
      Move replies e (e.close index p result).engine

end Engine

/-- Whether an event is one that the back-end allows: a reply has to be one to the request. -/
def Event.Allowed (replies : Replies) (e : Engine) : Event → Prop
  | .paint index reply => ∀ c request resume, e.computations[index]? = some c →
      c.stage = .painting request resume → replies request reply
  | _ => True

namespace Engine

variable {e : Engine} {replies : Replies}

theorem run_moves {index : Nat} {c : Computation} {p : Pass}
    (computation : e.computations[index]? = some c) (pass : e.passes[c.pass]? = some p)
    (queued : c.stage = .queued) : Move replies e (e.run index c p).engine := by
  unfold run
  cases hw : (e.workOf p c).1 with
  | error failure =>
    rw [show e.workOf p c = (.error failure, (e.workOf p c).2) from Prod.ext hw rfl]
    exact .runsOut computation pass queued (by rw [hw]; rfl)
  | ok work =>
    rw [show e.workOf p c = (.ok work, (e.workOf p c).2) from Prod.ext hw rfl]
    cases work with
    | done outcome => exact .runsOut computation pass queued (by rw [hw]; rfl)
    | paint request resume => exact .runsOn computation pass queued hw

theorem begin_moves {index : Nat} {p : Pass} {v : Label} (pass : e.passes[index]? = some p)
    (fresh : p.progress? v = some .fresh) : Move replies e (e.begin index p v).engine := by
  unfold begin
  cases known : e.graph.node? v with
  | none => exact .absent pass fresh known
  | some n =>
    dsimp only
    split
    · next oneByOne =>
      rw [Bool.not_eq_true'] at oneByOne
      exact .begins pass fresh known
        (takeIn_continues ⟨n.kind, e.sortedInputs v, e.sortedInputs v⟩ oneByOne _ [] rfl (by simp))
    · next sideBySide =>
      simp only [Bool.not_eq_true', Bool.not_eq_false] at sideBySide
      split
      · next none_ =>
        rw [List.isEmpty_iff] at none_
        refine .begins pass fresh known (conclude_continues
          ⟨n.kind, e.sortedInputs v, e.sortedInputs v⟩ fun i hi => ?_)
        simp [none_] at hi
      · next some_ =>
        rw [List.isEmpty_iff] at some_
        exact .gathers pass fresh known sideBySide some_

/-- A node whose sources are finished goes on, in either order. -/
theorem proceed_moves {index : Nat} {p : Pass} {v : Label} {needs : Gathering} (pass : e.passes[index]? = some p)
    (gathering : p.progress? v = some (.gathering needs))
    (ready : needs.isReady e.settings.concurrentSiblings p = true) :
    Move replies e (if e.settings.concurrentSiblings then e.conclude index p v needs
      else e.takeIn index p v needs needs.pending).engine := by
  split
  · next sideBySide =>
    refine .proceeds pass gathering ready ⟨fun _ oneByOne => ?_, fun _ => ?_⟩
    · rw [sideBySide] at oneByOne
      cases oneByOne
    · rw [sideBySide] at ready
      simp only [Gathering.isReady, if_true, Bool.and_eq_true, List.all_eq_true] at ready
      refine conclude_continues needs fun i hi => ?_
      obtain ⟨r, hr⟩ := Pass.isFinished_iff.mp (ready.2 i hi)
      exact ⟨r, hr, fun oneByOne => by rw [sideBySide] at oneByOne; cases oneByOne⟩
  · next oneByOne =>
    refine .proceeds pass gathering ready ⟨fun taken oneByOne split passed => ?_, fun h => ?_⟩
    · exact takeIn_continues needs oneByOne _ taken split passed
    · exact absurd h oneByOne

/-- Every step is one of the moves. -/
theorem move_of_step {event : Event} {turn : Turn} (h : e.step event = some turn)
    (allowed : event.Allowed replies e) : Move replies e turn.engine := by
  cases event with
  | begin index v =>
    obtain ⟨p, pass, h⟩ := Option.bind_eq_some_iff.mp h
    split at h
    · next fresh =>
      obtain rfl := Option.some.inj h
      exact begin_moves pass fresh
    · cases h
  | launch index v =>
    obtain ⟨p, pass, h⟩ := Option.bind_eq_some_iff.mp h
    split at h
    · next needs gathering =>
      split at h
      · next able =>
        obtain rfl := Option.some.inj h
        simp only [Bool.and_eq_true, Bool.not_eq_true', List.isEmpty_eq_false_iff] at able
        exact .launches pass gathering able.1 able.2 (by simp)
      · cases h
    · cases h
  | proceed index v =>
    obtain ⟨p, pass, h⟩ := Option.bind_eq_some_iff.mp h
    split at h
    · next needs gathering =>
      split at h
      · next ready =>
        rw [← Option.some.inj ((apply_ite some _ _ _).trans h)]
        exact proceed_moves pass gathering ready
      · cases h
    · cases h
  | run index =>
    obtain ⟨c, computation, h⟩ := Option.bind_eq_some_iff.mp h
    obtain ⟨p, pass, h⟩ := Option.bind_eq_some_iff.mp h
    split at h
    · next queued =>
      obtain rfl := Option.some.inj h
      exact run_moves computation pass queued
    · cases h
  | paint index reply =>
    obtain ⟨c, computation, h⟩ := Option.bind_eq_some_iff.mp h
    split at h
    · next request resume painted =>
      obtain rfl := Option.some.inj h
      exact .replies computation painted (allowed c request resume computation painted)
    · cases h
  | deliver index v =>
    obtain ⟨p, pass, h⟩ := Option.bind_eq_some_iff.mp h
    split at h
    · next i waiting =>
      split at h
      · next result stage =>
        obtain rfl := Option.some.inj h
        obtain ⟨c, computation, stage⟩ := Option.map_eq_some_iff.mp stage
        exact .delivers pass waiting computation stage
      · cases h
    · cases h
  | close index =>
    obtain ⟨p, pass, h⟩ := Option.bind_eq_some_iff.mp h
    split at h
    · next result unclosed finished =>
      obtain rfl := Option.some.inj h
      exact .closes pass unclosed finished
    · cases h

end Engine

end VectorGraph
