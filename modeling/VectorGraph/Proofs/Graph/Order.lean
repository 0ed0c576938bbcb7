import Mathlib.Data.List.Chain
import Mathlib.Data.List.Perm.Subperm
import Mathlib.Logic.Relation
import VectorGraph.Graph.Reach
import VectorGraph.Operator.Registry
import VectorGraph.Proofs.Results

/-!
Which nodes a node depends on, and what the check for cycles gives.

`Graph.Feeds` is one step against the direction of the edges. The nodes that `Graph.ancestors` collects
are those from which such steps lead to the node (`mem_ancestors`); the fuel of the walk is enough since
an edge puts its end on the stack only once, when its other end is kept.

If the check for cycles succeeds, the nodes that a target depends on exist and have a rank that falls
from a node to its sources (`exists_rank`). Everything that is proved about a pass by going up or down
the graph is an induction on that rank. The fuel of the search is enough since the nodes under search
are distinct.
-/
namespace VectorGraph.Graph

variable {g : Graph} {u v w : Label}

/-- `u` is a source of `v`. -/
def Feeds (g : Graph) (u v : Label) : Prop := u ∈ g.sourcesOf v

/-- `v` is `u`, or depends on it. -/
abbrev Upstream (g : Graph) : Label → Label → Prop := Relation.ReflTransGen g.Feeds

/-- Every required socket of the target and of the nodes that it depends on is connected. -/
def Connected (g : Graph) (target : Label) : Prop :=
  ∀ v n, v = target ∨ v ∈ g.ancestors target → g.node? v = some n →
    ∀ socket ∈ n.kind.requiredSockets, ∃ i ∈ g.inputsOf v, i.1.nameText = socket

theorem hasNode_iff : g.hasNode v = true ↔ v ∈ g.nodes.map (·.id) := by
  simp [hasNode]

theorem exists_node (h : g.hasNode v = true) : ∃ n, g.node? v = some n ∧ n.id = v := by
  have found : (g.node? v).isSome = true := by
    rw [node?, List.find?_isSome]
    simpa [hasNode] using h
  obtain ⟨n, hn⟩ := Option.isSome_iff_exists.mp found
  exact ⟨n, hn, by simpa using List.find?_some hn⟩

theorem node?_id {n : Node} (h : g.node? v = some n) : n.id = v := by
  simpa using List.find?_some h

/-! ## The walk -/

section Walk

variable {next : Label → List Label} {ends : Edge → Label}

/-- What is collected comes from the stack. -/
theorem of_mem_walk (fuel : Nat) : ∀ (stack seen : List Label) (x : Label),
    x ∈ walk next fuel stack seen →
    x ∈ seen ∨ ∃ s ∈ stack, Relation.ReflTransGen (fun a b => a ∈ next b) x s := by
  induction fuel with
  | zero => exact fun stack seen x h => .inl h
  | succ fuel ih =>
    intro stack seen x h
    cases stack with
    | nil => exact .inl h
    | cons current rest =>
      unfold walk at h
      split at h
      · rcases ih rest seen x h with h | ⟨s, hs, path⟩
        · exact .inl h
        · exact .inr ⟨s, List.mem_cons_of_mem _ hs, path⟩
      · rcases ih _ _ x h with h | ⟨s, hs, path⟩
        · rcases List.mem_cons.mp h with rfl | h
          · exact .inr ⟨x, List.mem_cons_self, .refl⟩
          · exact .inl h
        · rcases List.mem_append.mp hs with hs | hs
          · exact .inr ⟨current, List.mem_cons_self, path.tail hs⟩
          · exact .inr ⟨s, List.mem_cons_of_mem _ hs, path⟩

/-- The edges whose ends have not been kept. -/
def openEdges (g : Graph) (ends : Edge → Label) (seen : List Label) : List Edge :=
  g.edges.filter fun e => !seen.contains (ends e)

/-- Keeping a node leaves out the edges that end at it. -/
theorem length_openEdges {seen : List Label} (new : seen.contains v = false) :
    (g.openEdges ends (v :: seen)).length + (g.edges.filter (ends · == v)).length =
      (g.openEdges ends seen).length := by
  unfold openEdges
  induction g.edges with
  | nil => rfl
  | cons e rest ih =>
    simp only [List.contains_cons] at ih
    by_cases hv : ends e = v
    · have old : seen.contains (ends e) = false := hv ▸ new
      simp only [List.filter_cons, List.contains_cons, hv, beq_self_eq_true, Bool.true_or, Bool.not_true,
        Bool.false_eq_true, if_false, if_true, new, Bool.not_false, List.length_cons]
      omega
    · have ne : (ends e == v) = false := beq_false_of_ne hv
      simp only [List.filter_cons, List.contains_cons, ne, Bool.false_or, Bool.false_eq_true, if_false]
      split
      · simp only [List.length_cons]
        omega
      · exact ih

/-- With enough fuel, all that is on the stack is collected, and so is what follows on what is. -/
theorem walk_closed (bound : ∀ v, (next v).length ≤ (g.edges.filter (ends · == v)).length)
    (fuel : Nat) : ∀ stack seen : List Label, stack.length + (g.openEdges ends seen).length < fuel →
    (∀ y ∈ seen, ∀ z ∈ next y, z ∈ seen ∨ z ∈ stack) →
    (∀ x, x ∈ seen ∨ x ∈ stack → x ∈ walk next fuel stack seen) ∧
    ∀ y ∈ walk next fuel stack seen, ∀ z ∈ next y, z ∈ walk next fuel stack seen := by
  induction fuel with
  | zero => intro stack seen h; omega
  | succ fuel ih =>
    intro stack seen enough closed
    cases stack with
    | nil =>
      refine ⟨fun x hx => ?_, fun y hy z hz => ?_⟩
      · exact hx.elim id fun h => absurd h List.not_mem_nil
      · exact (closed y hy z hz).elim id fun h => absurd h List.not_mem_nil
    | cons current rest =>
      unfold walk
      rw [List.length_cons] at enough
      split
      · next old =>
        rw [List.contains_iff_mem] at old
        have onward : ∀ x, x ∈ seen ∨ x ∈ current :: rest → x ∈ seen ∨ x ∈ rest := by
          rintro x (hx | hx)
          · exact .inl hx
          · rcases List.mem_cons.mp hx with rfl | hx
            · exact .inl old
            · exact .inr hx
        obtain ⟨all, next_⟩ := ih rest seen (by omega) fun y hy z hz => onward z (closed y hy z hz)
        exact ⟨fun x hx => all x (onward x hx), next_⟩
      · next new =>
        rw [Bool.not_eq_true] at new
        have onward : ∀ x, x ∈ seen ∨ x ∈ current :: rest →
            x ∈ current :: seen ∨ x ∈ next current ++ rest := by
          rintro x (hx | hx)
          · exact .inl (List.mem_cons_of_mem _ hx)
          · rcases List.mem_cons.mp hx with rfl | hx
            · exact .inl List.mem_cons_self
            · exact .inr (List.mem_append_right _ hx)
        have fewer := @length_openEdges g current ends seen new
        have few := bound current
        obtain ⟨all, next_⟩ := ih (next current ++ rest) (current :: seen)
          (by rw [List.length_append]; omega) fun y hy z hz => by
            rcases List.mem_cons.mp hy with rfl | hy
            · exact .inr (List.mem_append_left _ hz)
            · exact onward z (closed y hy z hz)
        exact ⟨fun x hx => all x (onward x hx), next_⟩

/-- The walk collects what can be reached from the stack. -/
theorem mem_reach (bound : ∀ v, (next v).length ≤ (g.edges.filter (ends · == v)).length) :
    u ∈ g.reach next v ↔ Relation.TransGen (fun a b => a ∈ next b) u v := by
  have few := Nat.le_trans (bound v) (List.length_filter_le _ _)
  have all := List.length_filter_le (fun e => !([] : List Label).contains (ends e)) g.edges
  obtain ⟨start, closed⟩ := walk_closed (g := g) bound (2 * g.edges.length + 1) (next v) []
    (by unfold openEdges; omega) fun y hy => absurd hy List.not_mem_nil
  constructor
  · intro h
    rcases of_mem_walk _ _ _ u h with h | ⟨s, hs, path⟩
    · exact absurd h List.not_mem_nil
    · exact .tail' path hs
  · intro h
    have down : ∀ {a b}, Relation.ReflTransGen (fun a b => a ∈ next b) a b → b ∈ g.reach next v →
        a ∈ g.reach next v := by
      intro a b path hb
      induction path using Relation.ReflTransGen.head_induction_on with
      | refl => exact hb
      | head step _ ih => exact closed _ ih _ step
    obtain ⟨s, path, hs⟩ := Relation.TransGen.tail'_iff.mp h
    exact down path (start s (.inr hs))

end Walk

theorem length_setSocket (sockets : List (Label × Label)) (socket source : Label) :
    (setSocket sockets socket source).length ≤ sockets.length + 1 := by
  unfold setSocket
  split <;> simp

/-- A node has at most one source for every edge to it. -/
theorem length_sourcesOf (g : Graph) (v : Label) :
    (g.sourcesOf v).length ≤ (g.edges.filter (·.target == v)).length := by
  have fold : ∀ (edges : List Edge) (sockets : List (Label × Label)),
      (edges.foldl (fun sockets e => setSocket sockets e.targetSocket e.source) sockets).length ≤
        sockets.length + edges.length := by
    intro edges
    induction edges with
    | nil => exact fun _ => Nat.le_refl _
    | cons e rest ih =>
      intro sockets
      have one := length_setSocket sockets e.targetSocket e.source
      have more := ih (setSocket sockets e.targetSocket e.source)
      rw [List.foldl_cons, List.length_cons]
      omega
  rw [sourcesOf, List.length_map]
  exact Nat.le_trans (fold _ []) (by simp)

/-- The ancestors of a node are the nodes from which a path of at least one edge leads to it. -/
theorem mem_ancestors : u ∈ g.ancestors v ↔ Relation.TransGen g.Feeds u v :=
  mem_reach (length_sourcesOf g)

/-- A node and its ancestors are the nodes upstream of it. -/
theorem upstream_iff : g.Upstream u v ↔ u = v ∨ u ∈ g.ancestors v := by
  rw [mem_ancestors]
  exact Relation.reflTransGen_iff_eq_or_transGen.trans (or_congr_left eq_comm)

/-! ## The search for cycles -/

/-- Every node of the list is in the graph, and its sources stand behind it. -/
inductive Ordered (g : Graph) : List Label → Prop where
  | nil : Ordered g []
  | cons {v : Label} {rest : List Label} (there : g.hasNode v = true)
      (sources : ∀ u, g.Feeds u v → u ∈ rest) (tail : Ordered g rest) : Ordered g (v :: rest)

/-- The step that the search makes for a source. -/
def trySource (g : Graph) (fuel : Nat) (path : List Label) (node : Label) (done : List Label)
    (source : Label) : Except GraphFault (List Label) :=
  if !g.hasNode source then .error (.unknownSource node source)
  else if (node :: path).contains source then
    .error (.cycle ((node :: path).takeWhile (· != source) ++ [source, node]))
  else if done.contains source then .ok done
  else search g fuel (node :: path) done source

theorem search_succ (fuel : Nat) (path done : List Label) (node : Label) :
    g.search (fuel + 1) path done node =
      ((g.sourcesOf node).foldlM (g.trySource fuel path node) done).map (node :: ·) := by
  rw [search]
  rfl

/-- The search has come to a node. `path` holds the nodes under search on the way from the target, last
first; each of them is a source of the next. -/
structure UnderSearch (g : Graph) (target : Label) (fuel : Nat) (path : List Label) (node : Label) :
    Prop where
  distinct : (node :: path).Nodup
  there : ∀ x ∈ node :: path, g.hasNode x = true
  chain : (node :: path).IsChain g.Feeds
  upstream : ∀ x ∈ node :: path, g.Upstream x target
  /-- More nodes than there are cannot be under search. -/
  enough : g.nodes.length + 1 ≤ fuel + path.length

namespace UnderSearch

variable {target node source : Label} {fuel : Nat} {path : List Label}

theorem start (there : g.hasNode target = true) :
    g.UnderSearch target (g.nodes.length + 1) [] target where
  distinct := by simp
  there x hx := List.mem_singleton.mp hx ▸ there
  chain := List.isChain_singleton target
  upstream x hx := List.mem_singleton.mp hx ▸ .refl
  enough := Nat.le_refl _

/-- The fuel lasts. -/
theorem ne_zero (h : g.UnderSearch target fuel path node) : fuel ≠ 0 := by
  rintro rfl
  have known : ∀ x ∈ node :: path, x ∈ g.nodes.map (·.id) := fun x hx => hasNode_iff.mp (h.there x hx)
  have few := (List.subperm_of_subset h.distinct known).length_le
  have enough := h.enough
  rw [List.length_map, List.length_cons] at few
  omega

/-- From a node the search goes on to a source that is not under search. -/
theorem next (h : g.UnderSearch target (fuel + 1) path node) (feeds : g.Feeds source node)
    (there : g.hasNode source = true) (off : source ∉ node :: path) :
    g.UnderSearch target fuel (node :: path) source where
  distinct := List.nodup_cons.mpr ⟨off, h.distinct⟩
  there := List.forall_mem_cons.mpr ⟨there, h.there⟩
  chain := List.isChain_cons_cons.mpr ⟨feeds, h.chain⟩
  upstream := List.forall_mem_cons.mpr ⟨.head feeds (h.upstream node List.mem_cons_self), h.upstream⟩
  enough := by
    have enough := h.enough
    rw [List.length_cons]
    omega

end UnderSearch

section Search

variable {target node : Label} {fuel : Nat} {path : List Label}
  (deeper : ∀ (path done : List Label) (node : Label) (found : List Label), g.UnderSearch target fuel path node →
    g.Ordered done → g.search fuel path done node = .ok found →
    g.Ordered found ∧ node ∈ found ∧ ∀ x ∈ done, x ∈ found)
  (under : g.UnderSearch target (fuel + 1) path node)

include deeper under

theorem trySource_ordered {done found : List Label} {source : Label} (feeds : g.Feeds source node)
    (ordered : g.Ordered done) (h : g.trySource fuel path node done source = .ok found) :
    g.Ordered found ∧ source ∈ found ∧ ∀ x ∈ done, x ∈ found := by
  unfold trySource at h
  split at h
  · cases h
  · next there =>
    split at h
    · cases h
    · next off =>
      rw [Bool.not_eq_true, List.contains_eq_mem, decide_eq_false_iff_not] at off
      split at h
      · next old =>
        obtain rfl := Except.ok.inj h
        exact ⟨ordered, by simpa using old, fun x hx => hx⟩
      · exact deeper (node :: path) done source found (under.next feeds (by simpa using there) off) ordered h

theorem foldlM_trySource_ordered {sources : List Label} : ∀ {done found : List Label},
    (∀ u ∈ sources, g.Feeds u node) → g.Ordered done →
    sources.foldlM (g.trySource fuel path node) done = .ok found →
    g.Ordered found ∧ (∀ x ∈ sources, x ∈ found) ∧ ∀ x ∈ done, x ∈ found := by
  induction sources with
  | nil =>
    intro done found _ ordered h
    obtain rfl := Except.ok.inj h
    exact ⟨ordered, by simp, fun x hx => hx⟩
  | cons source rest ih =>
    intro done found feed ordered h
    rw [List.foldlM_cons] at h
    obtain ⟨more, one, others⟩ := bind_eq_ok.mp h
    obtain ⟨first, later⟩ := List.forall_mem_cons.mp feed
    obtain ⟨ordered', here, kept⟩ := trySource_ordered deeper under first ordered one
    obtain ⟨ordered'', rest_, kept'⟩ := ih later ordered' others
    refine ⟨ordered'', fun x hx => ?_, fun x hx => kept' x (kept x hx)⟩
    rcases List.mem_cons.mp hx with rfl | hx
    · exact kept' x here
    · exact rest_ x hx

end Search

/-- What the search adds comes behind what it was added to, so that the list stays ordered. -/
theorem search_ordered {target : Label} (fuel : Nat) : ∀ (path done : List Label) (node : Label)
    (found : List Label), g.UnderSearch target fuel path node → g.Ordered done →
    g.search fuel path done node = .ok found →
    g.Ordered found ∧ node ∈ found ∧ ∀ x ∈ done, x ∈ found := by
  induction fuel with
  | zero => exact fun path done node found under => absurd rfl under.ne_zero
  | succ fuel ih =>
    intro path done node found under ordered h
    rw [search_succ] at h
    obtain ⟨more, fold, same⟩ := bind_eq_ok.mp h
    obtain rfl := Except.ok.inj same
    obtain ⟨ordered', sources, kept⟩ := foldlM_trySource_ordered ih under (fun u hu => hu) ordered fold
    exact ⟨.cons (under.there node List.mem_cons_self) sources ordered', List.mem_cons_self,
      fun x hx => List.mem_cons_of_mem _ (kept x hx)⟩

theorem Ordered.upstream {nodes : List Label} (h : g.Ordered nodes) {u v : Label}
    (path : g.Upstream u v) (hv : v ∈ nodes) : u ∈ nodes := by
  have step : ∀ {nodes : List Label}, g.Ordered nodes → ∀ {a b}, g.Feeds a b → b ∈ nodes → a ∈ nodes := by
    intro nodes h
    induction h with
    | nil => exact fun _ hb => absurd hb List.not_mem_nil
    | cons there sources tail ih =>
      intro a b feeds hb
      rcases List.mem_cons.mp hb with rfl | hb
      · exact List.mem_cons_of_mem _ (sources a feeds)
      · exact List.mem_cons_of_mem _ (ih feeds hb)
  induction path using Relation.ReflTransGen.head_induction_on with
  | refl => exact hv
  | head feeds _ ih => exact step h feeds ih

theorem Ordered.hasNode {nodes : List Label} (h : g.Ordered nodes) (hv : v ∈ nodes) :
    g.hasNode v = true := by
  induction h with
  | nil => cases hv
  | cons there sources tail ih =>
    rcases List.mem_cons.mp hv with rfl | hv
    · exact there
    · exact ih hv

theorem Ordered.exists_rank {nodes : List Label} (h : g.Ordered nodes) :
    ∃ rank : Label → Nat, (∀ v ∈ nodes, rank v < nodes.length) ∧
      ∀ v ∈ nodes, ∀ u, g.Feeds u v → rank u < rank v := by
  induction h with
  | nil => exact ⟨fun _ => 0, by simp, by simp⟩
  | @cons v rest there sources tail ih =>
    obtain ⟨rank, low, falls⟩ := ih
    -- a node that stands again behind keeps the rank that it has there
    refine ⟨fun x => if x ∈ rest then rank x else rest.length, fun x hx => ?_, fun x hx u feeds => ?_⟩
    · by_cases old : x ∈ rest
      · simp only [if_pos old, List.length_cons]
        exact Nat.lt_succ_of_lt (low x old)
      · simp [if_neg old]
    · by_cases old : x ∈ rest
      · have hu : u ∈ rest := tail.upstream (.single feeds) old
        simp only [if_pos old, if_pos hu]
        exact falls x old u feeds
      · rcases List.mem_cons.mp hx with rfl | hx
        · have hu := sources u feeds
          simp only [if_pos hu, if_neg old]
          exact low u hu
        · exact absurd hx old

/-- The nodes upstream of the target are there, and their ranks fall from a node to its sources. -/
structure Ranked (g : Graph) (target : Label) (rank : Label → Nat) : Prop where
  hasNode : ∀ v, g.Upstream v target → g.hasNode v = true
  falls : ∀ v, g.Upstream v target → ∀ u, g.Feeds u v → rank u < rank v

/-- What goes from the sources of a node to the node holds of everything that the target depends on. -/
theorem Ranked.induction {target : Label} {rank : Label → Nat} (ranked : g.Ranked target rank) {M : Label → Prop}
    (step : ∀ v, g.Upstream v target → (∀ u, g.Feeds u v → M u) → M v) {v : Label} (up : g.Upstream v target) :
    M v := by
  induction n : rank v using Nat.strong_induction_on generalizing v with
  | _ n ih =>
    subst n
    exact step v up fun u feeds => ih (rank u) (ranked.falls v up u feeds) (.head feeds up) rfl

/-- If the check for cycles succeeds, what the target depends on has a rank. -/
theorem exists_rank {target : Label} (h : g.checkAcyclic target = .ok ()) :
    ∃ rank, g.Ranked target rank := by
  unfold checkAcyclic at h
  split at h
  · cases h
  · next there =>
    cases hs : g.search (g.nodes.length + 1) [] [] target with
    | error fault =>
      rw [hs] at h
      cases h
    | ok found =>
      obtain ⟨ordered, here, -⟩ := search_ordered (g.nodes.length + 1) [] [] target found
        (.start (by simpa using there)) .nil hs
      obtain ⟨rank, -, falls⟩ := ordered.exists_rank
      exact ⟨rank, fun v path => ordered.hasNode (ordered.upstream path here),
        fun v path => falls v (ordered.upstream path here)⟩

end VectorGraph.Graph
