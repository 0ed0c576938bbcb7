import VectorGraph.Engine.Studio
import VectorGraph.Proofs.Graph.Order

/-!
What the check for cycles decides.

The search for cycles can be made with a stack instead of a recursion: `Loop` holds the nodes under search,
each with the sources that have not been looked at, and makes one turn for the next source of the node on
top. The loop comes to an end on every graph, and ends with the answer of the recursion (`search_leads`). The
fuel of the recursion plays no part in it, since nodes under search are distinct.

What the check reports is a defect of the ancestry of the target (`search_defect`): a source that is not there,
or the nodes along a cycle in the direction of the data. And since neither is there in a sound ancestry, the
check succeeds exactly where all nodes upstream exist and none is its own ancestor
(`checkAcyclic_decides`).
-/
namespace VectorGraph.Graph

variable {g : Graph} {target u v node source : Label} {path done : List Label}

/-! ## The search with a stack -/

/-- A node under search, with the sources that have not been looked at. -/
structure Frame where
  node : Label
  sources : List Label

/-- The nodes under search, last first, and the nodes whose ancestry is known to be sound. -/
structure Loop where
  stack : List Frame
  done : List Label := []

namespace Loop

/-- The stack at the beginning of a search. -/
def start (g : Graph) (target : Label) : Loop := { stack := [⟨target, g.sourcesOf target⟩] }

/-- Looks at the next source of the node on top, or takes the node off if there is none. An empty stack has no
turn. -/
def turn (g : Graph) (l : Loop) : Option (Except GraphFault Loop) :=
  match l.stack with
  | [] => none
  | ⟨node, []⟩ :: below => some (.ok ⟨below, node :: l.done⟩)
  | ⟨node, source :: rest⟩ :: below =>
    let path := node :: below.map Frame.node
    some <|
      if !g.hasNode source then .error (.unknownSource node source)
      else if path.contains source then .error (.cycle (path.takeWhile (· != source) ++ [source, node]))
      else if l.done.contains source then .ok ⟨⟨node, rest⟩ :: below, l.done⟩
      else .ok ⟨⟨source, g.sourcesOf source⟩ :: ⟨node, rest⟩ :: below, l.done⟩

/-- Turn after turn, the loop comes to an end and gives this answer. -/
inductive Ends (g : Graph) : Loop → Except GraphFault Unit → Prop where
  | empty {l : Loop} (turn : l.turn g = none) : Ends g l (.ok ())
  | fault {l : Loop} {fault : GraphFault} (turn : l.turn g = some (.error fault)) : Ends g l (.error fault)
  | next {l m : Loop} {answer : Except GraphFault Unit} (turn : l.turn g = some (.ok m))
      (later : Ends g m answer) : Ends g l answer

/-- The loop gets as far as to the frames below, with what a search has found, or ends with its fault. -/
def Leads (g : Graph) (l : Loop) (below : List Frame) : Except GraphFault (List Label) → Prop
  | .error fault => Ends g l (.error fault)
  | .ok found => ∀ answer, Ends g ⟨below, found⟩ answer → Ends g l answer

theorem Leads.of_turn {l m : Loop} {below : List Frame} {found : Except GraphFault (List Label)}
    (turn : l.turn g = some (.ok m)) (h : Leads g m below found) : Leads g l below found := by
  cases found with
  | error fault => exact .next turn h
  | ok found => exact fun answer later => .next turn (h answer later)

/-- What follows on a search that has led to the frames below. -/
theorem Leads.bind {l : Loop} {frame : Frame} {below : List Frame}
    {first : Except GraphFault (List Label)} {more : List Label → Except GraphFault (List Label)}
    (h : Leads g l (frame :: below) first)
    (later : ∀ found, Leads g ⟨frame :: below, found⟩ below (more found)) :
    Leads g l below (first.bind more) := by
  cases first with
  | error fault => exact h
  | ok found =>
    change Leads g l below (more found)
    have then_ := later found
    cases hm : more found with
    | error fault =>
      rw [hm] at then_
      exact h _ then_
    | ok all =>
      rw [hm] at then_
      exact fun answer ends => h answer (then_ answer ends)

end Loop

open Loop in
/-- The loop does what the recursion does. -/
theorem search_leads (fuel : Nat) : ∀ (path done : List Label) (node : Label) (below : List Frame),
    g.UnderSearch target fuel path node → below.map Frame.node = path →
    Leads g ⟨⟨node, g.sourcesOf node⟩ :: below, done⟩ below (g.search fuel path done node) := by
  induction fuel with
  | zero => exact fun path done node below under => absurd rfl under.ne_zero
  | succ fuel ih =>
    intro path done node below under on
    -- the sources are looked at in turn, so the induction is on those that are left
    have sources : ∀ (rest done : List Label), (∀ u ∈ rest, g.Feeds u node) →
        Leads g ⟨⟨node, rest⟩ :: below, done⟩ below
          ((rest.foldlM (g.trySource fuel path node) done).map (node :: ·)) := by
      intro rest
      induction rest with
      | nil => exact fun done _ answer ends => .next rfl ends
      | cons source rest ihs =>
        intro done feed
        obtain ⟨feeds, later⟩ := List.forall_mem_cons.mp feed
        have split : ((source :: rest).foldlM (g.trySource fuel path node) done).map (node :: ·) =
            (g.trySource fuel path node done source).bind fun found =>
              (rest.foldlM (g.trySource fuel path node) found).map (node :: ·) := by
          rw [List.foldlM_cons]
          cases g.trySource fuel path node done source <;> rfl
        rw [split, trySource]
        have turn := Loop.turn.eq_def g ⟨⟨node, source :: rest⟩ :: below, done⟩
        dsimp only at turn
        rw [on] at turn
        by_cases there : g.hasNode source = true
        · rw [there, Bool.not_true, if_neg Bool.false_ne_true] at turn ⊢
          by_cases round : (node :: path).contains source = true
          · rw [if_pos round] at turn ⊢
            exact .fault turn
          · rw [if_neg round] at turn ⊢
            by_cases old : done.contains source = true
            · rw [if_pos old] at turn ⊢
              exact .of_turn turn (ihs done later)
            · rw [if_neg old] at turn ⊢
              have off : source ∉ node :: path := by simpa using round
              refine .of_turn turn (.bind ?_ fun found => ihs found later)
              exact ih (node :: path) done source (⟨node, rest⟩ :: below) (under.next feeds there off)
                (by rw [List.map_cons, on])
        · rw [Bool.not_eq_true] at there
          rw [there, Bool.not_false, if_pos rfl] at turn ⊢
          exact .fault turn
    rw [search_succ]
    exact sources _ done fun u hu => hu

/-- The loop ends with the answer of the check. -/
theorem start_ends (there : g.hasNode target = true) :
    Loop.Ends g (Loop.start g target) (g.checkAcyclic target) := by
  have leads := search_leads (g.nodes.length + 1) [] [] target [] (.start there) rfl
  unfold checkAcyclic
  rw [there, Bool.not_true, if_neg Bool.false_ne_true]
  cases hs : g.search (g.nodes.length + 1) [] [] target with
  | error fault =>
    rw [hs] at leads
    exact leads
  | ok found =>
    rw [hs] at leads
    exact leads _ (.empty rfl)

/-! ## Defects -/

/-- The nodes along a cycle upstream of the target, in the direction of the data: each of them is the source of
an input of the next, and the first one stands at the end again. -/
structure IsCycle (g : Graph) (target : Label) (ids : List Label) : Prop where
  long : 2 ≤ ids.length
  closed : ids.head? = ids.getLast?
  distinct : ids.dropLast.Nodup
  upstream : ∀ v ∈ ids, v = target ∨ v ∈ g.ancestors target
  chain : ids.IsChain g.Feeds

/-- What is wrong with the ancestry of the target. -/
inductive Defect (g : Graph) (target : Label) : GraphFault → Prop where
  | unknownNode (missing : g.hasNode target = false) : Defect g target (.unknownNode target)
  | unknownSource {node source : Label} (upstream : node = target ∨ node ∈ g.ancestors target)
      (feeds : g.Feeds source node) (missing : g.hasNode source = false) :
      Defect g target (.unknownSource node source)
  | cycle {ids : List Label} (round : g.IsCycle target ids) : Defect g target (.cycle ids)

/-- The part of a list up to an entry. -/
theorem takeWhile_append_prefix {l : List Label} (h : source ∈ l) :
    l.takeWhile (· != source) ++ [source] <+: l := by
  induction l with
  | nil => cases h
  | cons x l ih =>
    by_cases hx : x = source
    · subst hx
      simp
    · have later : source ∈ l := (List.mem_cons.mp h).resolve_left (Ne.symm hx)
      rw [List.takeWhile_cons_of_pos (by simpa using hx), List.cons_append, List.cons_prefix_cons]
      exact ⟨rfl, ih later⟩

/-- A source that is under search itself closes a cycle. -/
theorem UnderSearch.isCycle {fuel : Nat} (under : g.UnderSearch target fuel path node)
    (feeds : g.Feeds source node) (round : source ∈ node :: path) :
    g.IsCycle target ((node :: path).takeWhile (· != source) ++ [source, node]) := by
  have part := takeWhile_append_prefix round
  have split : (node :: path).takeWhile (· != source) ++ [source, node] =
      ((node :: path).takeWhile (· != source) ++ [source]) ++ [node] := by simp
  refine ⟨by simp, ?_, ?_, fun v hv => ?_, ?_⟩
  · by_cases same : node = source
    · subst same
      simp
    · rw [split, List.getLast?_concat, List.takeWhile_cons_of_pos (by simpa using same)]
      rfl
  · rw [split, List.dropLast_concat]
    exact under.distinct.sublist part.sublist
  · rw [← upstream_iff]
    refine under.upstream v ?_
    rw [split, List.mem_append, List.mem_singleton] at hv
    rcases hv with hv | rfl
    · exact part.subset hv
    · exact List.mem_cons_self
  · rw [split]
    have sofar := List.IsChain.prefix under.chain part
    refine sofar.append (List.isChain_singleton node) ?_
    intro a ha b hb
    rw [List.getLast?_concat, Option.mem_some_iff] at ha
    rw [List.head?_singleton, Option.mem_some_iff] at hb
    exact ha ▸ hb ▸ feeds

/-- The search fails for a defect only. -/
theorem search_defect (fuel : Nat) : ∀ (path done : List Label) (node : Label) (fault : GraphFault),
    g.UnderSearch target fuel path node → g.search fuel path done node = .error fault →
    g.Defect target fault := by
  induction fuel with
  | zero => exact fun path done node fault under => absurd rfl under.ne_zero
  | succ fuel ih =>
    intro path done node fault under h
    rw [search_succ] at h
    cases hf : (g.sourcesOf node).foldlM (g.trySource fuel path node) done with
    | ok found =>
      rw [hf] at h
      cases h
    | error other =>
      rw [hf] at h
      obtain rfl := Except.error.inj h
      -- a source has failed: it is missing, closes a cycle, or has a defect upstream
      obtain ⟨source, feeds, done', failed⟩ := exists_of_foldlM_error _ _ hf
      unfold trySource at failed
      split at failed
      · next missing =>
        obtain rfl := Except.error.inj failed
        exact .unknownSource (upstream_iff.mp (under.upstream node List.mem_cons_self)) feeds
          (by simpa using missing)
      · next there =>
        split at failed
        · next round =>
          obtain rfl := Except.error.inj failed
          exact .cycle (under.isCycle feeds (by simpa using round))
        · next off =>
          split at failed
          · cases failed
          · exact ih (node :: path) done' source _
              (under.next feeds (by simpa using there) (by simpa using off)) failed

/-- The check fails for a defect only. -/
theorem checkAcyclic_defect {fault : GraphFault} (h : g.checkAcyclic target = .error fault) :
    g.Defect target fault := by
  unfold checkAcyclic at h
  split at h
  · next missing =>
    obtain rfl := Except.error.inj h
    exact .unknownNode (by simpa using missing)
  · next there =>
    cases hs : g.search (g.nodes.length + 1) [] [] target with
    | ok found =>
      rw [hs] at h
      cases h
    | error other =>
      rw [hs] at h
      obtain rfl := Except.error.inj h
      exact search_defect _ [] [] target _ (.start (by simpa using there)) hs

/-! ## Sound ancestries -/

/-- Every node upstream of the target is there, and none is its own ancestor. -/
def Sound (g : Graph) (target : Label) : Prop :=
  ∀ v, v = target ∨ v ∈ g.ancestors target → g.hasNode v = true ∧ v ∉ g.ancestors v

/-- Ranks fall along a path of at least one edge. -/
theorem Ranked.lt {rank : Label → Nat} (h : g.Ranked target rank) (path : Relation.TransGen g.Feeds u v) :
    g.Upstream v target → rank u < rank v := by
  induction path with
  | single feeds => exact fun up => h.falls _ up _ feeds
  | tail _ feeds ih =>
    exact fun up => Nat.lt_trans (ih (.head feeds up)) (h.falls _ up _ feeds)

theorem Ranked.sound {rank : Label → Nat} (h : g.Ranked target rank) : g.Sound target := by
  intro v hv
  have up := upstream_iff.mpr hv
  exact ⟨h.hasNode v up, fun own => Nat.lt_irrefl _ (h.lt (mem_ancestors.mp own) up)⟩

/-- The first node of a cycle is its own ancestor. -/
theorem IsCycle.exists_own {ids : List Label} (h : g.IsCycle target ids) : ∃ v ∈ ids, v ∈ g.ancestors v := by
  obtain ⟨long, closed, -, -, chain⟩ := h
  match ids with
  | [] => simp at long
  | [_] => simp at long
  | v :: w :: rest =>
    obtain ⟨feeds, later⟩ := List.isChain_cons_cons.mp chain
    -- the chain goes on to the last node, which is the first one again
    have onward : g.Upstream w ((w :: rest).getLast (by simp)) :=
      List.relationReflTransGen_of_exists_isChain_cons rest later rfl
    have last : (w :: rest).getLast (by simp) = v := by
      rw [List.getLast?_cons_cons, List.getLast?_eq_getLast_of_ne_nil (by simp)] at closed
      exact (Option.some.inj closed).symm
    rw [last] at onward
    exact ⟨v, List.mem_cons_self, mem_ancestors.mpr (.head' feeds onward)⟩

/-- A sound ancestry has no defect. -/
theorem Sound.no_defect (h : g.Sound target) {fault : GraphFault} : ¬ g.Defect target fault := by
  rintro (missing | ⟨upstream, feeds, missing⟩ | round)
  · rw [(h target (.inl rfl)).1] at missing
    cases missing
  · have up := upstream_iff.mp (.head feeds (upstream_iff.mpr upstream))
    rw [(h _ up).1] at missing
    cases missing
  · obtain ⟨v, hv, own⟩ := round.exists_own
    exact (h v (round.upstream v hv)).2 own

theorem checkAcyclic_ok_iff : g.checkAcyclic target = .ok () ↔ g.Sound target := by
  constructor
  · intro h
    obtain ⟨rank, ranked⟩ := exists_rank h
    exact ranked.sound
  · intro sound
    cases hc : g.checkAcyclic target with
    | ok _ => rfl
    | error fault => exact absurd (checkAcyclic_defect hc) sound.no_defect

end VectorGraph.Graph

/-! ## Orders that fail the check -/

namespace VectorGraph.Studio

variable {s : Studio} {order : Order} {fault : GraphFault}

/-- An order whose target fails the check is refused, and leaves the engine as it was. -/
theorem carryOut_refused (backEnd : BackEnd) (salt : Nat → String) (aim : order.aim = .fragment)
    (failed : s.engine.graph.checkAcyclic order.target = .error fault) :
    ∃ failure, s.carryOut backEnd salt [order] = ([.error failure], s) ∧
      ∀ r, Engine.resolutionOf order.resolution = .ok r → failure = .graph fault := by
  have announced : s.announce order = (0, order.resolution, s) := by rw [announce, aim]
  obtain ⟨other, started, named⟩ : ∃ other,
      s.engine.start order.evaluator order.target order.resolution (salt (s.engine.passes.length + 1)) =
        .error other ∧ ∀ r, Engine.resolutionOf order.resolution = .ok r → other = fault := by
    unfold Engine.start
    cases hr : Engine.resolutionOf order.resolution with
    | error bad => exact ⟨bad, rfl, nofun⟩
    | ok r =>
      rw [failed]
      exact ⟨fault, rfl, fun _ _ => rfl⟩
  refine ⟨.graph other, ?_, fun r hr => congrArg _ (named r hr)⟩
  have taken : s.take salt order = (.refused (.error (.graph other)), [], s) := by
    rw [take, announced]
    dsimp only
    rw [started]
    dsimp only
    rw [deliver, aim]
    rfl
  have settled : s.engine.settleAll backEnd [] = s.engine := by
    simp only [Engine.settleAll, List.length_nil, Nat.zero_mul, Engine.follow]
  simp only [carryOut, List.foldl_cons, List.foldl_nil, taken, List.append_nil, List.nil_append, handOut, settled]

end VectorGraph.Studio

namespace VectorGraph.Graph

/-- The check for cycles decides whether the ancestry of the target is sound. The search comes to an end, with
a stack as with a recursion; it succeeds exactly where every node upstream is there and none is its own ancestor;
what it reports is a defect that is there; and an evaluation that is refused for it changes nothing: caches,
evaluators with their counters and records, passes and log are as they were. -/
theorem checkAcyclic_decides (g : Graph) (target : Label) :
    (g.hasNode target = true → Loop.Ends g (Loop.start g target) (g.checkAcyclic target)) ∧
    (g.checkAcyclic target = .ok () ↔
      ∀ v, v = target ∨ v ∈ g.ancestors target → g.hasNode v = true ∧ v ∉ g.ancestors v) ∧
    (∀ fault, g.checkAcyclic target = .error fault → g.Defect target fault) ∧
    ∀ (s : Studio) (backEnd : BackEnd) (salt : Nat → String) (order : Order) (fault : GraphFault),
      s.engine.graph = g → order.target = target → order.aim = .fragment →
      g.checkAcyclic target = .error fault →
      ∃ failure, s.carryOut backEnd salt [order] = ([.error failure], s) ∧
        ∀ r, Engine.resolutionOf order.resolution = .ok r → failure = .graph fault := by
  refine ⟨start_ends, checkAcyclic_ok_iff, fun fault => checkAcyclic_defect, ?_⟩
  rintro s backEnd salt order fault rfl rfl aim failed
  exact Studio.carryOut_refused backEnd salt aim failed

end VectorGraph.Graph
