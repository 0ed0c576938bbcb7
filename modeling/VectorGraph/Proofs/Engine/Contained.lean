import VectorGraph.Proofs.Engine.InTurn
import VectorGraph.Proofs.Engine.Resumed
import VectorGraph.Proofs.Operator.Fallback
import VectorGraph.Proofs.Picture.Conduct

/-!
Failures of renderings stay where they are.

A failure is heard where a computation, a node or a pass ends with it (`Engine.Heard`). Whatever is heard has been heard
before or has an origin (`Move.heard`): the graph, something that is missing, or the operator of a computation. This
holds in every state, for it is kept by every change (`Contains.change`). An operator has no failure from a rendering
(`Node.fails_unaided`), and so nothing that is heard comes from one (`raster_failures_contained`).
-/
namespace VectorGraph

/-- The replies of a back-end that may conduct itself in certain ways. -/
def Replies.conducted (may : RasterRequest → Conduct → Prop) : Replies := fun request reply =>
  ∃ conduct, may request conduct ∧ reply = conduct.reply request.width request.height

namespace Engine

variable {e e' : Engine} {replies : Replies} {draws : Draws} {k : Nat} {p q : Pass} {v : Label} {failure : Failure}

/-! ## Where failures come from -/

/-- A computation, a node of a pass or a closed pass has come to a failure. -/
inductive Heard (e : Engine) (failure : Failure) : Prop where
  | computation {i : Nat} {c : Computation} (there : e.computations[i]? = some c)
      (stage : c.stage = .ended (.error failure))
  | node {k : Nat} {p : Pass} {v : Label} (there : e.passes[k]? = some p)
      (result : p.result? v = some (.error failure))
  | pass {k : Nat} {p : Pass} (there : e.passes[k]? = some p) (result : p.result = some (.error failure))

/-- What a failure can come from: the graph, something that is missing, or the operator of a computation. -/
inductive Origin (e : Engine) (replies : Replies) (failure : Failure) : Prop where
  | graph (fault : failure.isGraphFault = true)
  | missing (same : failure = .missingEntry)
  | operator {i : Nat} {c : Computation} {ids : IdSource} (there : e.computations[i]? = some c)
      (yields : Work.Yields replies (e.runOf c ids).1 (.error failure))

theorem Origin.later (h : Origin e replies failure) (ledger : Ledger replies draws e) (grows : Grows e e') :
    Origin e' replies failure := by
  cases h with
  | graph fault => exact .graph fault
  | missing same => exact .missing same
  | @operator i c ids there yields =>
    obtain ⟨d, hd, later⟩ := grows.computations i c there
    obtain ⟨r, pass⟩ := ledger.passes i c there
    exact .operator hd ((grows.runOf pass later ids).symm ▸ yields)

/-- A cache answers with the failure of the computation, unless it cannot store. -/
theorem settle_eq_error {cache : Cache} {ticket : Nat} {result : Except Failure Fragment}
    (h : (cache.settle ticket result).1 = .error failure) : result = .error failure ∨ failure = .missingEntry := by
  unfold Cache.settle at h
  split at h
  · exact .inl h
  · split at h
    · exact .inl h
    · next f =>
      simp only [Cache.put] at h
      split at h
      · cases h
      · exact .inr (Except.error.inj h).symm

/-- What was heard before, or has an origin. -/
def Known (e : Engine) (replies : Replies) (failure : Failure) : Prop := e.Heard failure ∨ Origin e replies failure

/-- Nothing new is heard where one pass goes on, and its new results are known. -/
theorem Heard.of_setPass (heard : e'.Heard failure) (there : e.passes[k]? = some p)
    (passes : e'.passes = e.passes.set k q)
    (stages : ∀ (i : Nat) (d : Computation), e'.computations[i]? = some d → d.stage = .ended (.error failure) →
      Known e replies failure)
    (results : ∀ v, q.result? v = some (.error failure) → p.result? v = some (.error failure) ∨ Known e replies failure)
    (closed : q.result = some (.error failure) → p.result = some (.error failure) ∨ Known e replies failure) :
    Known e replies failure := by
  have either : ∀ (j : Nat) (s : Pass), e'.passes[j]? = some s → e.passes[j]? = some s ∨ s = q := by
    intro j s hs
    rw [passes] at hs
    exact (getElem?_set_cases hs).symm.imp And.right And.right
  cases heard with
  | computation hd stage => exact stages _ _ hd stage
  | node hs result =>
    rcases either _ _ hs with old | rfl
    · exact .inl (.node old result)
    · exact (results _ result).elim (fun result => .inl (.node there result)) id
  | pass hs result =>
    rcases either _ _ hs with old | rfl
    · exact .inl (.pass old result)
    · exact (closed result).elim (fun result => .inl (.pass there result)) id

theorem result?_set_cases {u : Label} {x : Progress} {r : Except Failure Fragment}
    (h : (q.set v x).result? u = some r) : q.result? u = some r ∨ x = .finished r := by
  rw [Pass.result?_eq_some] at h ⊢
  exact (progress?_set_cases h).imp_right fun new => new.2.symm

theorem result?_of_foldl_ask {u : Label} {sources : List Label} {r : Except Failure Fragment}
    (h : (sources.foldl Pass.ask q).result? u = some r) : q.result? u = some r := by
  rw [Pass.result?_eq_some] at h ⊢
  rcases progress?_foldl_ask_cases h with old | ⟨-, -, new⟩
  · exact old
  · cases new

/-- A node that goes on hands down a failure of a source, or lacks an input. -/
theorem Continues.heard {kind : Kind} {inputs : List (Label × Label)} (continued : Continues e k q v kind inputs e')
    (there : e.passes[k]? = some p) (results : ∀ u, q.result? u = p.result? u) (result : q.result = p.result)
    (heard : e'.Heard failure) : Known e replies failure := by
  -- A failure is heard of in a computation, in a task or in the result of a pass: each is looked at in turn.
  have same : ∀ {i : Nat} {d : Computation}, e.computations[i]? = some d → d.stage = .ended (.error failure) →
      Known e replies failure := fun hd stage => .inl (.computation hd stage)
  have set : ∀ {x : Progress}, (x = .finished (.error failure) → Known e replies failure) → ∀ u,
      (q.set v x).result? u = some (.error failure) →
      p.result? u = some (.error failure) ∨ Known e replies failure := by
    intro x new u h
    exact (result?_set_cases h).imp (fun old => (results u).symm.trans old) new
  have closed : q.result = some (.error failure) → p.result = some (.error failure) ∨ Known e replies failure :=
    fun h => .inl (result.symm.trans h)
  cases continued with
  | fails gathered =>
    refine heard.of_setPass there rfl (fun _ _ => same) (set fun new => ?_) closed
    obtain rfl := Except.error.inj (Progress.finished.inj new)
    obtain ⟨i, -, failed⟩ := gathered.exists_failed
    exact .inl (.node there ((results _).symm.trans failed))
  | misses gathered missing =>
    refine heard.of_setPass there rfl (fun _ _ => same) (set fun new => ?_) closed
    obtain rfl := Except.error.inj (Progress.finished.inj new)
    exact .inr (.graph rfl)
  | looks gathered complete looked =>
    cases looked with
    | found entry => exact heard.of_setPass there rfl (fun _ _ => same) (set nofun) closed
    | @joined ticket isShared missing running shared =>
      refine heard.of_setPass there rfl (fun i d hd stage => ?_) (set nofun) closed
      rw [List.getElem?_map] at hd
      obtain ⟨c, hc, rfl⟩ := Option.map_eq_some_iff.mp hd
      refine same hc ?_
      split at stage <;> exact stage
    | started missing idle =>
      refine heard.of_setPass there rfl (fun i d hd stage => ?_) (set nofun) closed
      rcases getElem?_concat_cases hd with hd | ⟨-, rfl⟩
      · exact same hd stage
      · cases stage
  | @awaits taken rest socket source oneByOne split passed open_ =>
    refine heard.of_setPass there rfl (fun _ _ => same) (fun u h => ?_) (fun h => ?_)
    · have told := @result?_of_foldl_ask _ u [source] _ h
      refine set ?_ u told
      nofun
    · obtain ⟨tasks, asked⟩ := (q.set v (.gathering ⟨kind, inputs, (socket, source) :: rest⟩)).exists_ask source
      rw [asked] at h
      exact closed h

/-- A failure that is heard after a move was heard before, or has an origin. -/
theorem Move.heard (ledger : Ledger replies draws e) (m : Move replies e e') (heard : e'.Heard failure) :
    Known e replies failure := by
  have same : ∀ (i : Nat) (d : Computation), e.computations[i]? = some d → d.stage = .ended (.error failure) →
      Known e replies failure := fun _ _ hd stage => .inl (.computation hd stage)
  have goesOn : ∀ {i : Nat} {c : Computation} {stage : Stage},
      (stage = .ended (.error failure) → Known e replies failure) →
      ∀ (j : Nat) (d : Computation), (e.computations.set i { c with stage })[j]? = some d →
        d.stage = .ended (.error failure) → Known e replies failure := by
    intro i c stage new j d hd ended
    rcases getElem?_set_cases hd with ⟨-, rfl⟩ | ⟨-, hd⟩
    · exact new ended
    · exact same j d hd ended
  -- what the cache answers with is what the operator has come to, unless nothing can be stored
  have answered : ∀ {i : Nat} {c : Computation} {result : Except Failure Fragment} {ids : IdSource} {cache : Cache},
      e.computations[i]? = some c → Work.Yields replies (e.runOf c ids).1 result →
      Stage.ended (cache.settle c.ticket result).1 = .ended (.error failure) → Known e replies failure := by
    intro i c result ids cache hc yields ended
    rcases settle_eq_error (Stage.ended.inj ended) with rfl | missing
    · exact .inr (.operator hc yields)
    · exact .inr (.missing missing)
  cases m with
  | @absent k p v pass fresh unknown =>
    refine heard.of_setPass pass rfl same (fun u h => ?_) .inl
    refine (result?_set_cases h).imp id fun new => ?_
    obtain rfl := Except.error.inj (Progress.finished.inj new)
    exact .inr (.missing rfl)
  | gathers pass fresh known sideBySide some_ =>
    exact heard.of_setPass pass rfl same (fun u h => (result?_set_cases h).imp id nofun) .inl
  | begins pass fresh known continued => exact continued.heard pass (fun _ => rfl) rfl heard
  | @launches k p v needs sources pass gathering sideBySide unasked all =>
    refine heard.of_setPass pass rfl same (fun u h => ?_) (fun h => .inl ?_)
    · exact (result?_set_cases (result?_of_foldl_ask h)).imp id nofun
    · obtain ⟨tasks, asked⟩ := Pass.exists_foldl_ask sources (p.set v (.gathering { needs with pending := [] }))
      rw [asked] at h
      exact h
  | proceeds pass gathering ready continued =>
    exact (ledger.goesOn pass gathering continued).heard pass (fun _ => rfl) rfl heard
  | @runsOn i c p request resume lines computation pass queued work =>
    exact heard.of_setPass pass rfl (goesOn nofun) (fun _ => .inl) .inl
  | @runsOut i c p result lines lines' computation pass queued yields =>
    have own : Work.Yields replies (e.runOf c p.ids).1 result := (runOf_eq_workOf pass).symm ▸ yields
    exact heard.of_setPass pass rfl (goesOn (answered computation own)) (fun _ => .inl) .inl
  | @replies i c request resume reply lines computation painted allowed =>
    have own := ledger.yields_of_reply computation painted allowed
    cases heard with
    | computation hd stage => exact goesOn (answered computation own) _ _ hd stage
    | node there result => exact .inl (.node there result)
    | pass there result => exact .inl (.pass there result)
  | @delivers k p v i c result pass waiting computation stage =>
    refine heard.of_setPass pass rfl same (fun u h => ?_) .inl
    refine (result?_set_cases h).imp id fun new => ?_
    obtain rfl := Progress.finished.inj new
    exact .inl (.computation computation stage)
  | @closes k p result pass unclosed finished =>
    refine heard.of_setPass pass rfl same (fun u => .inl) (fun h => ?_)
    obtain rfl := Option.some.inj h
    exact .inr (.inl (.node pass finished))

/-! ## Runs -/

/-- What is true of every state: whatever is heard has an origin, and passes are for pictures of some size. -/
structure Contains (replies : Replies) (e : Engine) : Prop where
  heard : ∀ failure, e.Heard failure → Origin e replies failure
  positive : ∀ (k : Nat) (p : Pass), e.passes[k]? = some p → 0 < p.resolution.count

theorem Heard.congr (heard : e'.Heard failure) (passes : e'.passes = e.passes)
    (computations : e'.computations = e.computations) : e.Heard failure := by
  cases heard with
  | computation there stage => exact .computation (computations ▸ there) stage
  | node there result => exact .node (passes ▸ there) result
  | pass there result => exact .pass (passes ▸ there) result

/-- Nothing is heard from a pass that has just been started. -/
theorem Heard.of_started {n : Nat} {target : Label} {salt : String} (heard : e'.Heard failure)
    (s : Started e n target salt p e') : e.Heard failure := by
  obtain ⟨log, rfl⟩ := s.state
  have either : ∀ (j : Nat) (q : Pass), (e.passes ++ [p])[j]? = some q → e.passes[j]? = some q ∨ q = p :=
    fun j q there => (getElem?_concat_cases there).imp_right And.right
  cases heard with
  | computation there stage => exact .computation there stage
  | node there result =>
    rcases either _ _ there with old | rfl
    · exact .node old result
    · rw [Pass.result?_eq_some] at result
      simp only [Pass.progress?, s.tasks, List.find?_cons] at result
      split at result <;> cases result
  | pass there result =>
    rcases either _ _ there with old | rfl
    · exact .pass old result
    · rw [s.result] at result
      cases result

namespace Contains

variable {u : Usage}

theorem congr (h : Contains u.replies e) (ledger : Ledger u.replies draws e) (grows : Grows e e')
    (passes : e'.passes = e.passes) (computations : e'.computations = e.computations) : Contains u.replies e' :=
  ⟨fun failure heard => (h.heard failure (heard.congr passes computations)).later ledger grows,
    fun k p there => h.positive k p (passes ▸ there)⟩

theorem move (h : Contains u.replies e) (ledger : Ledger u.replies draws e) (grows : Grows e e')
    (m : Move u.replies e e') : Contains u.replies e' := by
  refine ⟨fun failure heard => ?_, fun k q there => ?_⟩
  · exact ((m.heard ledger heard).elim (h.heard failure) id).later ledger grows
  · -- no move adds a pass
    have low : k < e.passes.length := m.length_passes ledger ▸ (List.getElem?_eq_some_iff.mp there).1
    obtain ⟨q', there', later⟩ := grows.passes k _ (List.getElem?_eq_getElem low)
    obtain rfl := Option.some.inj (there.symm.trans there')
    rw [later.resolution]
    exact h.positive k _ (List.getElem?_eq_getElem low)

theorem change (h : Contains u.replies e) (ledger : Ledger u.replies draws e) (m : Change u e e') :
    Contains u.replies e' := by
  obtain ⟨draws', -, grows, -⟩ := m.upkeep ledger
  cases m with
  | steps step allowed => exact h.move ledger grows (move_of_step step allowed)
  | opens may =>
    refine h.congr ledger grows ?_ ?_ <;> unfold addEvaluator <;> dsimp only <;> split <;> rfl
  | starts may there started =>
    obtain ⟨p, -, s⟩ := started_of_start started
    refine ⟨fun failure heard => (h.heard failure (heard.of_started s)).later ledger grows, fun k q there => ?_⟩
    obtain ⟨log, state⟩ := s.state
    rw [state] at there
    rcases List.mem_append.mp (List.mem_of_getElem? there) with old | new
    · obtain ⟨j, old⟩ := List.mem_iff_getElem?.mp old
      exact h.positive j q old
    · rw [List.mem_singleton.mp new]
      exact s.positive
  | edits => exact h.congr ledger grows rfl rfl
  | invalidates => exact h.congr ledger grows rfl rfl
  | clears => exact h.congr ledger grows rfl rfl

end Contains

theorem blank_contains (replies : Replies) (settings : Settings) (canRender : Bool) (digest : Digest) :
    Contains replies (blank settings canRender digest) := by
  refine ⟨fun failure heard => ?_, fun k p there => by cases there⟩
  cases heard with
  | computation there => cases there
  | node there => cases there
  | pass there => cases there

/-- In every state that is reached. -/
theorem Reaches.contains {u : Usage} {settings : Settings} {canRender : Bool} {digest : Digest}
    (run : Reaches u (blank settings canRender digest) e) :
    ∃ draws, Ledger u.replies draws e ∧ Grows (blank settings canRender digest) e ∧ Contains u.replies e := by
  have nothing := blank_ledger u.replies settings canRender digest fun _ => default
  induction run with
  | refl => exact ⟨_, nothing, .refl _, blank_contains _ _ _ _⟩
  | tail _ change ih =>
    obtain ⟨draws, ledger, grows, sound⟩ := ih
    obtain ⟨draws', ledger', grows', -⟩ := change.upkeep ledger
    exact ⟨draws', ledger', grows.trans grows', sound.change ledger change⟩

/-! ## What is heard of a back-end -/

/-- Whatever is possible may be done, and the back-end conducts itself as it may. -/
def conducted (may : RasterRequest → Conduct → Prop) : Usage :=
  ⟨.conducted may, fun _ => True, fun _ _ => True, fun _ _ => True⟩

/-- What the operator of a computation is told. -/
def contextOf (e : Engine) (c : Computation) : Context := ⟨e.settings, e.extentOf c, e.canRender, c.node.id.nameText⟩

/-- A failure that no rendering has had a part in: a fault of the graph, something that is missing, or what the operator
of a computation fails with when it gets pictures, or has nothing connected. -/
inductive Unaided (e : Engine) (replies : Replies) (failure : Failure) : Prop where
  | graph (fault : failure.isGraphFault = true)
  | missing (same : failure = .missingEntry)
  | operator {i : Nat} {c : Computation} (there : e.computations[i]? = some c)
      (fails : c.node.FailsUnaided e.settings replies (e.extentOf c) c.inputs failure)

theorem Origin.unaided (h : Origin e replies failure) : e.Unaided replies failure := by
  cases h with
  | graph fault => exact .graph fault
  | missing same => exact .missing same
  | operator there yields => exact .operator there (Node.fails_unaided yields)

/-- How a state of the engine copes with a back-end: computations ask for the pixels of their inputs only, and for so
many that there can be some; where these do not come, they fall back; and no failure that is heard comes of it. -/
structure Copes (replies : Replies) (e : Engine) : Prop where
  asks : ∀ (i : Nat) (c : Computation) (request : RasterRequest) (resume : Except RasterFault Picture → Outcome),
    e.computations[i]? = some c → c.stage = .painting request resume →
    ∃ source, c.inputs.at? "in" = some source ∧ c.node.kind.Asks (e.contextOf c) c.node.params source request resume ∧
      (0 ≤ e.settings.defaultFidelity → 0 ≤ request.width.count)
  falls : ∀ (i : Nat) (fault : RasterFault) (turn : Turn), e.step (.paint i (.error fault)) = some turn →
    ∃ c source r, e.computations[i]? = some c ∧ c.inputs.at? "in" = some source ∧
      c.node.kind.FallsBack (e.contextOf c) c.node.params source r ∧
      (0 ≤ e.settings.maxCacheEntries → turn.engine.computations[i]? = some { c with stage := .ended r })
  heard : ∀ failure, e.Heard failure → e.Unaided replies failure

/-- A computation that waits for pixels waits for those of its input. -/
theorem Ledger.asks (ledger : Ledger replies draws e) {i : Nat} {c : Computation} {request : RasterRequest}
    {resume : Except RasterFault Picture → Outcome} (there : e.computations[i]? = some c)
    (painting : c.stage = .painting request resume) : ∃ source, c.inputs.at? "in" = some source ∧
      c.node.kind.Asks (e.contextOf c) c.node.params source request resume := by
  cases ledger.works i c there with
  | queued stage => rw [painting] at stage; cases stage
  | painting stage work =>
    rw [painting] at stage
    obtain ⟨rfl, rfl⟩ := Stage.painting.inj stage
    exact Kind.asks_of_paint work
  | ended stage => rw [painting] at stage; cases stage

/-- The back-end replies to a computation that waits for pixels. -/
theorem exists_painting {i : Nat} {reply : Except RasterFault Picture} {turn : Turn}
    (step : e.step (.paint i reply) = some turn) : ∃ c request resume, e.computations[i]? = some c ∧
      c.stage = .painting request resume ∧ e.settle i c (resume reply) = turn := by
  obtain ⟨c, there, step⟩ := Option.bind_eq_some_iff.mp step
  split at step
  · next request resume painting => exact ⟨c, request, resume, there, painting, Option.some.inj step⟩
  · cases step

/-- A computation falls back when the back-end fails. -/
theorem Ledger.falls (ledger : Ledger replies draws e) {i : Nat} {fault : RasterFault} {turn : Turn}
    (step : e.step (.paint i (.error fault)) = some turn) : ∃ c source r, e.computations[i]? = some c ∧
      c.inputs.at? "in" = some source ∧ c.node.kind.FallsBack (e.contextOf c) c.node.params source r ∧
      (0 ≤ e.settings.maxCacheEntries → turn.engine.computations[i]? = some { c with stage := .ended r }) := by
  obtain ⟨c, request, resume, there, painting, same⟩ := exists_painting step
  obtain ⟨source, connected, asks⟩ := ledger.asks there painting
  refine ⟨c, source, _, there, connected, asks.falls fault, fun able => ?_⟩
  have isOpen := Computation.open_of_painting painting
  obtain ⟨cache, hcache, held, spec⟩ := ledger.books.settledAs there isOpen (resume (.error fault)).result
  rw [← spec.accepted (ledger.capacity _ _ hcache ▸ able), ← held, ← same]
  exact List.getElem?_set_self (List.getElem?_eq_some_iff.mp there).1

theorem Contains.copes (h : Contains replies e) (ledger : Ledger replies draws e) : Copes replies e := by
  refine ⟨fun i c request resume there painting => ?_, fun i fault turn => ledger.falls,
    fun failure heard => (h.heard failure heard).unaided⟩
  obtain ⟨source, connected, asks⟩ := ledger.asks there painting
  obtain ⟨p, pass⟩ := ledger.passes i c there
  have extent : e.extentOf c = p.resolution := by rw [extentOf, pass]; rfl
  refine ⟨source, connected, asks, fun sized => asks.sized sized ?_⟩
  change 0 ≤ (e.extentOf c).count
  rw [extent]
  exact Int.le_of_lt (h.positive _ p pass)

theorem Steps.reaches {u : Usage} {m : Nat} (steps : Steps u.replies m e e') : Reaches u e e' := by
  induction steps with
  | none e => exact .refl
  | more before step allowed ih => exact ih.tail (.steps step allowed)

theorem conducted_replies {may : RasterRequest → Conduct → Prop} (always : ∀ request, ∃ conduct, may request conduct) :
    AlwaysReplies (conducted may).replies := by
  intro request
  obtain ⟨conduct, allowed⟩ := always request
  exact ⟨_, conduct, allowed, rfl⟩

/-- Whatever becomes of renderings, they end no evaluation. At each call the back-end may deliver pixels, too many or
too few of them, or something else; it may refuse, or break down; and there need not be one. Operators ask for the
pixels of their input only, and where they do not get them they fall back. Nothing that is heard of in a state of the
engine, however many passes have overlapped, comes from a rendering. A pass that is started where nothing else goes on
makes only so many steps, and one is possible until it is closed. -/
theorem raster_failures_contained (settings : Settings) (canRender : Bool) (digest : Digest)
    (may : RasterRequest → Conduct → Prop) (always : ∀ request, ∃ conduct, may request conduct) :
    (∀ (width height : Extent) (conduct : Conduct) (reply : Except RasterFault Picture), 0 ≤ width.count →
      0 ≤ height.count → (conduct.reply width height = reply ↔ conduct.ComesTo width height reply)) ∧
    (∀ (kind : Kind) (c : Context) (params : Fields) (inputs : Inputs), c.canRender = true →
      (kind.operator c params inputs).Comes (kind.Does c params inputs)) ∧
    (∀ (kind : Kind) (c : Context) (params : Fields) (inputs : Inputs) (source : Fragment), c.canRender = false →
      kind.paints = true → inputs.at? "in" = some source →
      (kind.operator c params inputs).Comes fun work => ∃ outcome text, work = .done outcome ∧
        kind.FallsBack c params source outcome.result ∧
        outcome.log = [c.warning text RasterFault.notConfigured.message]) ∧
    ∀ e, Reaches (conducted may) (blank settings canRender digest) e → Copes (.conducted may) e ∧
      ∀ n target resolution salt turn, (∀ event, e.step event = none) → n < e.evaluators.length →
        e.start n target resolution salt = .ok turn →
        ∃ bound, ∀ m e', Steps (.conducted may) m turn.engine e' → m ≤ bound ∧ Copes (.conducted may) e' ∧
          ∃ p, e'.passes[e.passes.length]? = some p ∧ p.target = target ∧
            (p.result = none → ∃ event turn', e'.step event = some turn' ∧ event.Allowed (.conducted may) e') ∧
            ∀ failure, p.result = some (.error failure) → e'.Unaided (.conducted may) failure := by
  -- This holds of any state that can be reached; the rest follows one pass from a state at rest.
  have copes : ∀ e, Reaches (conducted may) (blank settings canRender digest) e → Copes (.conducted may) e := by
    intro e run
    obtain ⟨draws, ledger, -, sound⟩ := run.contains
    exact sound.copes ledger
  refine ⟨fun width height conduct reply wide high => Conduct.reply_eq_iff wide high,
    fun kind c params inputs able => kind.operator_comes able params inputs,
    fun kind c params inputs source unable => kind.operator_falls unable params, fun e run => ⟨copes e run, ?_⟩⟩
  intro n target resolution salt turn rest there started
  obtain ⟨draws, ledger, -⟩ := run.contains
  obtain ⟨p₀, -, s⟩ := started_of_start started
  have total := conducted_replies always
  have solo₀ := (ledger.calm_of_rest total rest).solo ledger there s
  refine ⟨remaining turn.engine p₀, fun m e' steps => ?_⟩
  obtain ⟨draws', p, solo, less, grows, -⟩ := solo₀.onward steps
  have copes' := copes e' ((run.tail (.starts trivial there started)).trans (Steps.reaches steps))
  exact ⟨by omega, copes', p, solo.underway.pass, (solo₀.later grows solo.underway).target.trans s.target,
    solo.exists_step total, fun failure result => copes'.heard failure (.pass solo.underway.pass result)⟩

/-! ## A trace that gets no pixels -/

/-- An engine whose graph traces a colour. -/
def traced : Engine :=
  { (blank {} true fun _ => "").addEvaluator none with
    graph :=
      { nodes := [⟨.text "t", .trace, []⟩, ⟨.text "c", .color, []⟩]
        edges := [⟨.text "c", .text "out", .text "t", .text "in"⟩] } }

/-- The events of a pass for the trace, during which the back-end breaks down. -/
def tracedEvents : List Event :=
  [.begin 0 (.text "t"), .launch 0 (.text "t"), .begin 0 (.text "c"), .run 0, .deliver 0 (.text "c"),
    .proceed 0 (.text "t"), .run 1, .paint 1 (.error (.crashed "boom")), .deliver 0 (.text "t"), .close 0]

/-- The engine when the pass for the trace is closed. -/
def tracedEnd : Engine := tracedEvents.foldl after (traced.opened (.text "t") (.whole 8) "s")

/-- The back-end breaks down whatever it is asked for, and the trace comes to the empty fragment. -/
theorem raster_failures_contained_traced :
    (∀ _ : RasterRequest, ∃ conduct, conduct = Conduct.breaks "boom") ∧
    ∃ turn m bound, traced.start 0 (.text "t") (.whole 8) "s" = .ok turn ∧
      Steps (.conducted fun _ conduct => conduct = .breaks "boom") m turn.engine tracedEnd ∧ m ≤ bound ∧
      Copes (.conducted fun _ conduct => conduct = .breaks "boom") tracedEnd ∧ tracedEnd.yield? 0 = some .empty := by
  have always : ∀ _ : RasterRequest, ∃ conduct, conduct = Conduct.breaks "boom" := fun _ => ⟨_, rfl⟩
  have reached : Reaches (conducted fun _ conduct => conduct = .breaks "boom") (blank {} true fun _ => "") traced :=
    (Relation.ReflTransGen.single (.opens trivial)).tail (.edits trivial)
  have still : ∀ event, traced.step event = none := by
    intro event
    cases event <;> rfl
  obtain ⟨turn, started⟩ := @start_ok traced 0 (.text "t") (.whole 8) (.pixels 8) "s" rfl
    (by with_unfolding_all rfl)
  obtain ⟨bound, all⟩ := ((raster_failures_contained {} true (fun _ => "") _ always).2.2.2 traced reached).2
    0 (.text "t") (.whole 8) "s" turn still (by decide) started
  have opened : turn.engine = traced.opened (.text "t") (.whole 8) "s" := by rw [Engine.opened, started]
  have able : (traced.opened (.text "t") (.whole 8) "s").possible tracedEvents = true := by decide +kernel
  have broken : ∀ event ∈ tracedEvents, ∀ e : Engine,
      event.Allowed (.conducted fun _ conduct => conduct = .breaks "boom") e := by
    intro event there e
    cases event with
    | paint i reply =>
      have same : i = 1 ∧ reply = .error (.crashed "boom") := by simpa [tracedEvents] using there
      exact fun _ _ _ _ _ => ⟨_, rfl, same.2⟩
    | _ => trivial
  have steps := Steps.through tracedEvents broken (.none _) able
  rw [opened] at all
  obtain ⟨brief, copes, -⟩ := all _ _ steps
  exact ⟨always, turn, _, bound, started, opened.symm ▸ steps, brief, copes, by decide +kernel⟩

end Engine

end VectorGraph
