import VectorGraph.Proofs.Engine.Contained

/-!
What is remembered of a rendering that has failed.

An operator that gets no pixels falls back on a fragment, and to the cache that is a fragment like any other. Whatever
is remembered is served (`Remembers.serves`), and so a node whose rendering has failed once comes to what it fell back
on in every later pass, whatever the back-end does by then (`fallback_remembered`). A new evaluator may come to
something else (`Studio.transient_failure_served`).
-/
namespace VectorGraph

namespace Engine

variable {e e' e₁ e₂ e₃ : Engine} {m m' m'' n : Nat} {p q : Pass} {F : Label → Fragment} {target : Label}
  {salt salt' : String} {f : Fragment}

/-- A pass for a target of which all is remembered computes nothing, and every node comes to what is remembered of it,
whatever order its steps are made in. -/
theorem Remembers.serves {u : Usage} {r : Extent} {resolution : Json} {turn : Turn}
    (memory : Remembers u.replies e n target r F) (started : e.start n target resolution salt = .ok turn)
    (positive : resolutionOf resolution = .ok r) (run : Steps u.replies m turn.engine e') :
    ∃ q, e'.passes[e.passes.length]? = some q ∧ q.computed = [] ∧
      (q.result ≠ none → q.result = some (.ok (F target)) ∧
        ∀ v, e.graph.Upstream v target → q.result? v = some (.ok (F v))) := by
  obtain ⟨q₀, rfl, s⟩ := started_at started positive
  have retaining := s.retaining_of_spare memory.rest memory.there memory.recalls []
    (fun _ _ other => absurd trivial other) (.inl rfl) run
  obtain ⟨draws₀, solo₀, serving₀⟩ := s.serving memory.rest memory.there memory.recalls
  rw [← s.evaluator] at retaining
  have distinct := (memory.rest.cacheOf memory.there).1
  obtain ⟨draws, q, solo, serving, grows, graph⟩ := solo₀.serving_retaining serving₀ distinct retaining
  have recalled : ∀ {v : Label} {x : Except Failure Fragment}, q.result? v = some x → x = .ok (F v) :=
    solo.recalled distinct serving.recalls (fun i c _ low hc _ => serving.served.idle i c low hc) trivial
  refine ⟨q, solo.underway.pass, List.eq_nil_iff_forall_not_mem.mpr fun v hv => serving.served.computed v hv trivial,
    fun closed => ?_⟩
  obtain ⟨x, result⟩ := Option.ne_none_iff_exists'.mp closed
  have aim : q.target = target := (solo₀.later grows solo.underway).target.trans s.target
  obtain ⟨done, -⟩ := solo.told x result
  obtain rfl := recalled done
  refine ⟨aim ▸ result, fun v up => ?_⟩
  obtain ⟨log, state⟩ := s.state
  have same : e'.graph = e.graph := by rw [graph, state]
  obtain ⟨g, hg⟩ := solo.result_of_upstream done (show e'.graph.Upstream v q.target from aim.symm ▸ same ▸ up)
  rw [hg, recalled hg]

theorem Steps.trans {replies : Replies} (first : Steps replies m e e₁) (second : Steps replies m' e₁ e₂) :
    Steps replies (m + m') e e₂ := by
  induction second with
  | none e => exact first
  | more before step allowed ih => exact .more (ih first) step allowed

/-- Where a computation of a pass that runs alone falls back and the pass comes to a fragment all the same, its node
comes to what the computation has fallen back on. -/
theorem Solo.falls {replies : Replies} {draws draws' : Draws} {k base i : Nat} {stock : List (CacheKey × Fragment)}
    {fault : RasterFault} {fallen : Turn} {p' : Pass} (h : Solo replies draws k base stock p e₁)
    (capacity : 0 ≤ e₁.settings.maxCacheEntries) (fails : e₁.step (.paint i (.error fault)) = some fallen)
    (grows : Grows fallen.engine e₂) (h' : Solo replies draws' k base stock p' e₂)
    (result : p'.result = some (.ok f)) : ∃ c source g, e₁.computations[i]? = some c ∧
      c.inputs.at? "in" = some source ∧ c.node.kind.FallsBack (e₁.contextOf c) c.node.params source (.ok g) ∧
      e₂.graph.Upstream c.node.id p'.target ∧ p'.result? c.node.id = some (.ok g) := by
  obtain ⟨c, source, r, hc, connected, falls, ended⟩ := h.ledger.falls fails
  obtain ⟨d, hd, later⟩ := grows.computations i _ (ended capacity)
  -- computations of earlier passes have ended, and this one was waiting for pixels
  obtain ⟨c', request, resume, hc', painting, -⟩ := exists_painting fails
  obtain ⟨low, -⟩ := h.underway.own_of_open hc' (Computation.open_of_painting painting)
  have own := (h'.underway.own i d hd low).2
  have name : d.node.id = c.node.id := congrArg Node.id later.node
  rw [name] at own
  have asked : p'.progress? c.node.id ≠ none := by
    rcases own with waiting | ⟨x, -, done⟩
    · exact waiting ▸ Option.some_ne_none _
    · exact done ▸ Option.some_ne_none _
  have up := h'.underway.within _ asked
  obtain ⟨g, told⟩ := h'.result_of_upstream (h'.told _ result).1 up
  refine ⟨c, source, g, hc, connected, ?_, up, told⟩
  rw [Pass.result?_eq_some] at told
  rcases own with waiting | ⟨x, past, done⟩
  · rw [told] at waiting
    cases waiting
  · rw [later.ended r rfl] at past
    obtain rfl := Stage.ended.inj past
    obtain rfl := Progress.finished.inj (Option.some.inj (done.symm.trans told))
    exact falls

/-- During a pass the back-end fails a computation, and the pass comes to a fragment all the same. The computation has
fallen back, and in any further pass for the target its node comes to what it has fallen back on, although the back-end
may do better by then; nothing is computed in it, and the fragment is the same as before. -/
theorem fallback_remembered {u : Usage} {settings : Settings} {canRender : Bool} {digest : Digest} {resolution : Json}
    {turn fallen turn' : Turn} {i : Nat} {fault : RasterFault}
    (run : Reaches u (blank settings canRender digest) e) (rest : ∀ event, e.step event = none)
    (there : n < e.evaluators.length) (total : AlwaysReplies u.replies)
    (room : ((e.cacheOf n).entries.length + (e.graph.ancestors target).length + 1 : Int) ≤ settings.maxCacheEntries)
    (started : e.start n target resolution salt = .ok turn) (before : Steps u.replies m turn.engine e₁)
    (fails : e₁.step (.paint i (.error fault)) = some fallen)
    (allowed : Event.Allowed u.replies e₁ (.paint i (.error fault))) (onward : Steps u.replies m' fallen.engine e₂)
    (pass : e₂.passes[e.passes.length]? = some p) (result : p.result = some (.ok f))
    (started' : e₂.start n target resolution salt' = .ok turn') (further : Steps u.replies m'' turn'.engine e₃)
    (pass' : e₃.passes[e₂.passes.length]? = some q) (closed : q.result ≠ none) :
    q.computed = [] ∧ q.result = some (.ok f) ∧ ∃ c source g, e₁.computations[i]? = some c ∧
      c.inputs.at? "in" = some source ∧ c.node.kind.FallsBack (e₁.contextOf c) c.node.params source (.ok g) ∧
      q.result? c.node.id = some (.ok g) := by
  obtain ⟨rest₀, kept, -⟩ := run.atRest rest total
  obtain ⟨p₀, positive, s⟩ := started_of_start started
  have failing := Steps.more before fails allowed
  have first := s.retaining_of_room rest₀ there (kept ▸ room) (failing.trans onward)
  obtain ⟨memory, -, -, results, last⟩ := s.remembers rest₀ there first pass result
  obtain ⟨q', pass'', computed, served⟩ := memory.serves started' positive further
  obtain rfl := Option.some.inj (pass'.symm.trans pass'')
  obtain ⟨result', all⟩ := served closed
  -- what the node has come to in the first pass is what its computation has fallen back on
  obtain ⟨draws, ledger⟩ := rest₀.ledger
  have solo₀ := rest₀.calm.solo ledger there s
  obtain ⟨draws₁, p₁, solo₁, -, grows₁, -⟩ := solo₀.onward before
  obtain ⟨draws', p', solo', -, grows', -⟩ := solo₀.onward failing
  obtain ⟨draws₂, p₂, solo₂, -, grows₂, -⟩ := solo'.onward onward
  obtain rfl := Option.some.inj (pass.symm.trans solo₂.underway.pass)
  have capacity : 0 ≤ e₁.settings.maxCacheEntries := by
    obtain ⟨log, state⟩ := s.state
    rw [grows₁.settings, state, kept]
    omega
  obtain ⟨c, source, g, hc, connected, falls, up, told⟩ := solo₁.falls capacity fails grows₂ solo₂ result
  rw [(solo₀.later (grows'.trans grows₂) solo₂.underway).target, s.target] at up
  have same := (results _ up).symm.trans told
  exact ⟨computed, last ▸ result', c, source, g, hc, connected, falls, (all _ up).trans same⟩

end Engine

namespace Studio

open Engine

/-- A studio with a back-end, over a graph in which a blurred colour is pixelated. -/
def pixelated : Studio where
  engine :=
    { (blank {} true fullDigest).addEvaluator none with
      graph :=
        { nodes := [⟨.text "c", .color, []⟩, ⟨.text "b", .softBlur, []⟩,
            ⟨.text "t", .pixelate, [("pixelSize", .whole 8)]⟩]
          edges :=
            [⟨.text "c", .text "out", .text "b", .text "in"⟩, ⟨.text "b", .text "out", .text "t", .text "in"⟩] } }

/-- Orders the pixels of such a studio. -/
def orderPixels (s : Studio) (backEnd : BackEnd) : List (Except Failure Product) × Studio :=
  s.carryOut backEnd (fun _ => "1000") [⟨0, .fragment, .text "t", .whole 8⟩]

/-- A back-end that paints everything red. -/
def red : BackEnd := fun _ request =>
  .ok (.generate request.width.count.toNat request.height.count.toNat fun _ _ => ⟨255, 0, 0, 255⟩)

/-- The same, but for its first call, which fails. -/
def faltering : BackEnd := fun call request =>
  if call = 1 then .error (.refused "cannot decode markup") else red call request

/-- How many definitions belong to the fragments that orders have led to. -/
def definitions (results : List (Except Failure Product)) : List (Option Nat) :=
  results.map fun result => (result.toOption.bind Product.fragment?).map (·.defs.length)

/-- The back-end fails only once, and the order falls back on the blurred colour, which has a definition. The next order
computes nothing and leads to the same, whereas a new evaluator makes a picture, which has none. -/
theorem transient_failure_served :
    (∀ call request, call ≠ 1 → faltering call request = red call request) ∧
    definitions (orderPixels pixelated faltering).1 = [some 1] ∧
    definitions (orderPixels (orderPixels pixelated faltering).2 faltering).1 = [some 1] ∧
    (orderPixels (orderPixels pixelated faltering).2 faltering).2.engine.evaluators.map (·.computed) = [[]] ∧
    definitions (orderPixels pixelated red).1 = [some 0] :=
  ⟨fun _ _ other => if_neg other, by decide +kernel⟩

end Studio

end VectorGraph
