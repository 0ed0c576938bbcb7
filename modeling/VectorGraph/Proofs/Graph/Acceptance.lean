import VectorGraph.Graph.Document
import VectorGraph.Proofs.Graph.Edits
import VectorGraph.Proofs.Results

/-!
Which documents describe a graph.

In a document of the right form (`Form`) every node has an id and every edge has two ends, and types, kinds and handles
are texts or null. Such a document is accepted if and only if its ids differ as texts, its types name kinds, its edges
lead from nodes to nodes, and no two of them to the same socket of a node (`Acceptable`); the graph then has the nodes
and the edges of the document in their order (`Describes`). What is refused is refused as a defect of the graph.
-/
namespace VectorGraph

/-! ## Names of kinds -/

namespace Kind

/-- The tag of a kind, or an alias of it. -/
def HasName (kind : Kind) (name : String) : Prop := name = kind.tag ∨ ofAlias? name = some kind

theorem ofTag?_tag (kind : Kind) : ofTag? kind.tag = some kind := by cases kind <;> rfl

theorem ofTag?_eq_some_iff {name : String} {kind : Kind} : ofTag? name = some kind ↔ kind.HasName name := by
  constructor
  · intro found
    unfold ofTag? at found
    cases further : ofAlias? name with
    | some other =>
      rw [further] at found
      exact .inr (further.trans found)
    | none =>
      rw [further] at found
      exact .inl (beq_iff_eq.mp (List.find?_some (p := fun k : Kind => k.tag == name) found)).symm
  · rintro (rfl | further)
    · exact ofTag?_tag kind
    · rw [ofTag?, further]
      rfl

end Kind

namespace Graph

variable {document entry : Json} {entries : List Json} {g g' : Graph} {failure : Failure}

/-! ## What a document says -/

/-- A value is missing, or it is null or a text. -/
def IsTextOrNull : Option Json → Prop
  | none | some .null | some (.text _) => True
  | some _ => False

/-- A value is missing, or it is a list. -/
def IsList : Option Json → Prop
  | none | some (.list _) => True
  | some _ => False

/-- The text under a key; empty if it is missing or null. -/
def textUnder (entry : Json) (key : String) : String :=
  match entry.get? key with
  | some (.text s) => s
  | _ => ""

/-- Whatever stands under a key, as a text. -/
def nameUnder (entry : Json) (key : String) : String := ((entry.get? key).getD .null).nameText

/-- The type of a node, or else its kind. -/
def tagUnder (entry : Json) : String :=
  if textUnder entry "type" = "" then textUnder entry "kind" else textUnder entry "type"

/-- The handle of an edge, or else a default. -/
def socketUnder (entry : Json) (key fallback : String) : String :=
  if textUnder entry key = "" then fallback else textUnder entry key

/-- The parameters of a node; none if they are no object. -/
def paramsUnder (entry : Json) : Fields :=
  match entry.get? "params" with
  | some (.object params) => params
  | _ => []

def edgeUnder (entry : Json) : Edge where
  source := .text (nameUnder entry "source")
  sourceSocket := .text (socketUnder entry "sourceHandle" "out")
  target := .text (nameUnder entry "target")
  targetSocket := .text (socketUnder entry "targetHandle" "in")

/-- The node and the socket that an edge leads to. -/
def portUnder (entry : Json) : String × String := (nameUnder entry "target", socketUnder entry "targetHandle" "in")

structure NodeForm (entry : Json) : Prop where
  id : (entry.get? "id").isSome = true
  type : IsTextOrNull (entry.get? "type")
  kind : IsTextOrNull (entry.get? "kind")

structure EdgeForm (entry : Json) : Prop where
  source : (entry.get? "source").isSome = true
  target : (entry.get? "target").isSome = true
  sourceHandle : IsTextOrNull (entry.get? "sourceHandle")
  targetHandle : IsTextOrNull (entry.get? "targetHandle")

/-- A document whose nodes and edges have what they need. -/
structure Form (document : Json) : Prop where
  object : ∃ fields, document = .object fields
  nodes : IsList (document.get? "nodes")
  edges : IsList (document.get? "edges")
  eachNode : ∀ entry ∈ itemsOf document "nodes", NodeForm entry
  eachEdge : ∀ entry ∈ itemsOf document "edges", EdgeForm entry

/-- A document that no check refuses. -/
structure Acceptable (document : Json) : Prop where
  ids : ((itemsOf document "nodes").map (nameUnder · "id")).Nodup
  kinds : ∀ entry ∈ itemsOf document "nodes", ∃ kind : Kind, kind.HasName (tagUnder entry)
  ends : ∀ entry ∈ itemsOf document "edges",
    nameUnder entry "source" ∈ (itemsOf document "nodes").map (nameUnder · "id") ∧
      nameUnder entry "target" ∈ (itemsOf document "nodes").map (nameUnder · "id")
  ports : ((itemsOf document "edges").map portUnder).Nodup

/-- A node as its entry has it. -/
structure IsNode (entry : Json) (n : Node) : Prop where
  id : n.id = .text (nameUnder entry "id")
  kind : n.kind.HasName (tagUnder entry)
  params : n.params = paramsUnder entry

/-- The nodes and the edges of a graph are those of a document, in the same order. -/
structure Describes (document : Json) (g : Graph) : Prop where
  nodes : List.Forall₂ IsNode (itemsOf document "nodes") g.nodes
  edges : g.edges = (itemsOf document "edges").map edgeUnder

/-! ## One entry -/

theorem required_eq {key : String} (there : (entry.get? key).isSome = true) :
    required entry key = .ok ((entry.get? key).getD .null) := by
  obtain ⟨value, found⟩ := Option.isSome_iff_exists.mp there
  simp [required, found]

theorem isSome_of_required {key : String} {value : Json} (h : required entry key = .ok value) :
    (entry.get? key).isSome = true := by
  unfold required at h
  split at h
  · next found => rw [found]; rfl
  · cases h

/-- There is nothing to go by, or there is a text. -/
theorem textUnder_cases {key : String} (h : IsTextOrNull (entry.get? key)) :
    (textUnder entry key = "" ∧ ((entry.get? key).getD .null = .null ∨ entry.get? key = some (.text ""))) ∨
      (textUnder entry key ≠ "" ∧ entry.get? key = some (.text (textUnder entry key))) := by
  unfold textUnder
  cases found : entry.get? key with
  | none => exact .inl ⟨rfl, .inl rfl⟩
  | some value =>
    rw [found] at h
    cases value with
    | null => exact .inl ⟨rfl, .inl rfl⟩
    | text s =>
      by_cases empty : s = ""
      · exact .inl ⟨empty, .inr (by rw [empty])⟩
      · exact .inr ⟨empty, rfl⟩
    | _ => cases h

theorem isGiven_text {s : String} : (Json.text s).isGiven = true ↔ s ≠ "" := by simp [Json.isGiven]

/-- What is not to go by does not count as given. -/
theorem isGiven_of_getD {value : Json} {key : String}
    (h : (entry.get? key).getD .null = .null ∨ entry.get? key = some (.text "")) (found : entry.get? key = some value) :
    value.isGiven = false := by
  rw [found, Option.getD_some, Option.some_inj] at h
  rcases h with rfl | rfl <;> rfl

theorem socketLabel_eq {key fallback : String} (h : IsTextOrNull (entry.get? key)) :
    socketLabel entry key fallback = .text (socketUnder entry key fallback) := by
  rw [socketUnder, socketLabel]
  rcases textUnder_cases h with ⟨empty, absent⟩ | ⟨given, found⟩
  · rw [if_pos empty]
    split
    · next value found =>
      rw [isGiven_of_getD absent found]
      rfl
    · rfl
  · rw [if_neg given, found]
    exact if_pos (isGiven_text.mpr given)

/-- The kind counts where no type does. -/
theorem kindTag_of_absent
    (absent : (entry.get? "type").getD .null = .null ∨ entry.get? "type" = some (.text "")) :
    kindTag entry = (entry.get? "kind").getD .null := by
  unfold kindTag
  split
  · next value found =>
    rw [isGiven_of_getD absent found]
    rfl
  · rfl

theorem parse_text {name : String} {kind : Kind} : Kind.parse (.text name) = .ok kind ↔ kind.HasName name := by
  rw [← Kind.ofTag?_eq_some_iff, Kind.parse]
  split <;> simp_all

/-- The kind of a node is the one that its type, or else its kind, names. -/
theorem parse_kindTag (form : NodeForm entry) {kind : Kind} :
    Kind.parse (kindTag entry) = .ok kind ↔ kind.HasName (tagUnder entry) := by
  unfold tagUnder
  rcases textUnder_cases form.type with ⟨empty, absent⟩ | ⟨given, found⟩
  · rw [if_pos empty, kindTag_of_absent absent]
    rcases textUnder_cases form.kind with ⟨empty, null | found⟩ | ⟨given, found⟩
    · rw [empty, null, ← Kind.ofTag?_eq_some_iff]
      exact ⟨nofun, nofun⟩
    · rw [empty, found]
      exact parse_text
    · rw [found]
      exact parse_text
  · have counts : kindTag entry = .text (textUnder entry "type") := by
      rw [kindTag, found]
      exact if_pos (isGiven_text.mpr given)
    rw [if_neg given, counts]
    exact parse_text

theorem mapError_graph_eq_error {α : Type} {x : Except GraphFault α} (h : x.mapError Failure.graph = .error failure) :
    ∃ fault, failure = .graph fault := by
  cases x with
  | error fault => exact ⟨fault, (Except.error.inj h).symm⟩
  | ok a => cases h

theorem fieldsOf_params : ((entry.get? "params").getD .null).fieldsOf = paramsUnder entry := by
  unfold paramsUnder
  cases entry.get? "params" with
  | none => rfl
  | some value => cases value <;> rfl

theorem readNode_eq (there : (entry.get? "id").isSome = true) :
    readNode g entry =
      if g.hasNode (.text (nameUnder entry "id")) then
        .error (.graph (.duplicateNode (.text (nameUnder entry "id"))))
      else do
        let kind ← (Kind.parse (kindTag entry)).mapError Failure.graph
        return g.addNode ⟨.text (nameUnder entry "id"), kind, paramsUnder entry⟩ := by
  rw [readNode, required_eq there, fieldsOf_params]
  rfl

/-- A node is taken in if its id is new and its kind is known. -/
theorem readNode_eq_ok_iff (form : NodeForm entry) :
    readNode g entry = .ok g' ↔ g.hasNode (.text (nameUnder entry "id")) = false ∧
      ∃ n, IsNode entry n ∧ g' = g.withNode n := by
  rw [readNode_eq form.id]
  split
  · next taken => simp [taken]
  · next new =>
    rw [Bool.not_eq_true] at new
    rw [bind_eq_ok]
    constructor
    · rintro ⟨kind, known, same⟩
      rw [mapError_eq_ok_iff, parse_kindTag form] at known
      refine ⟨new, ⟨.text (nameUnder entry "id"), kind, paramsUnder entry⟩, ⟨rfl, known, rfl⟩, ?_⟩
      exact (Except.ok.inj same).symm.trans (addNode_of_new new)
    · rintro ⟨-, ⟨id, kind, params⟩, ⟨rfl, known, rfl⟩, rfl⟩
      refine ⟨kind, mapError_eq_ok_iff.mpr ((parse_kindTag form).mpr known), congrArg _ ?_⟩
      exact addNode_of_new new

/-- An edge is taken in by the graph, or refused by it. -/
theorem readEdge_eq (form : EdgeForm entry) : readEdge g entry = (g.addEdge (edgeUnder entry)).mapError .graph := by
  rw [readEdge, required_eq form.source, required_eq form.target, socketLabel_eq form.sourceHandle,
    socketLabel_eq form.targetHandle]
  rfl

/-! ## All entries -/

/-- Nodes are taken in one after another if all their ids are new, differ, and all their kinds are known. -/
theorem foldlM_readNode_eq_ok_iff (form : ∀ entry ∈ entries, NodeForm entry) :
    entries.foldlM readNode g = .ok g' ↔
      (∀ entry ∈ entries, g.hasNode (.text (nameUnder entry "id")) = false) ∧
        (entries.map (nameUnder · "id")).Nodup ∧
        ∃ added, List.Forall₂ IsNode entries added ∧ g' = { g with nodes := g.nodes ++ added } := by
  induction entries generalizing g with
  | nil =>
    constructor
    · intro read
      exact ⟨nofun, .nil, [], .nil, by rw [← Except.ok.inj read, List.append_nil]⟩
    · rintro ⟨-, -, added, described, rfl⟩
      cases described
      rw [List.append_nil]
      rfl
  | cons entry entries ih =>
    have ⟨first, others⟩ := List.forall_mem_cons.mp form
    rw [List.foldlM_cons, bind_eq_ok, List.forall_mem_cons, List.map_cons, List.nodup_cons]
    constructor
    · rintro ⟨g₁, read, rest⟩
      obtain ⟨new, n, isNode, rfl⟩ := (readNode_eq_ok_iff first).mp read
      -- what is new to the graph with the first node is new to the graph and differs from the first node
      obtain ⟨fresh, distinct, added, described, rfl⟩ := (ih others).mp rest
      refine ⟨⟨new, fun e mem => (hasNode_withNode.mp (fresh e mem)).1⟩, ⟨fun again => ?_, distinct⟩, n :: added,
        .cons isNode described, ?_⟩
      · obtain ⟨e, mem, same⟩ := List.mem_map.mp again
        exact (hasNode_withNode.mp (fresh e mem)).2 (by rw [isNode.id, same])
      · simp [withNode]
    · rintro ⟨⟨new, fresh⟩, ⟨once, distinct⟩, added, described, rfl⟩
      cases described with
      | @cons _ n _ added isNode described =>
        refine ⟨g.withNode n, (readNode_eq_ok_iff first).mpr ⟨new, n, isNode, rfl⟩, ?_⟩
        refine (ih others).mpr ⟨fun e mem => hasNode_withNode.mpr ⟨fresh e mem, fun same => ?_⟩, distinct, added,
          described, ?_⟩
        · rw [isNode.id] at same
          exact once (Json.text.inj same ▸ List.mem_map_of_mem mem)
        · simp [withNode]

/-- Edges are taken in one after another if each fits into the graph and no two lead to the same socket. -/
theorem foldlM_readEdge_eq_ok_iff (form : ∀ entry ∈ entries, EdgeForm entry) :
    entries.foldlM readEdge g = .ok g' ↔
      (∀ entry ∈ entries, g.Takes (edgeUnder entry)) ∧ (entries.map edgeUnder).Pairwise Apart ∧
        g' = { g with edges := g.edges ++ entries.map edgeUnder } := by
  induction entries generalizing g with
  | nil =>
    constructor
    · intro read
      exact ⟨nofun, .nil, by rw [← Except.ok.inj read, List.map_nil, List.append_nil]⟩
    · rintro ⟨-, -, rfl⟩
      rw [List.map_nil, List.append_nil]
      rfl
  | cons entry entries ih =>
    have ⟨first, others⟩ := List.forall_mem_cons.mp form
    rw [List.foldlM_cons, bind_eq_ok, List.forall_mem_cons, List.map_cons, List.pairwise_cons]
    constructor
    · rintro ⟨g₁, read, rest⟩
      rw [readEdge_eq first, mapError_eq_ok_iff, addEdge_eq_ok_iff] at read
      obtain ⟨takes, rfl⟩ := read
      obtain ⟨each, apart, rfl⟩ := (ih others).mp rest
      refine ⟨⟨takes, fun e mem => (takes_withEdge.mp (each e mem)).1⟩, ⟨fun x mem => ?_, apart⟩, ?_⟩
      · obtain ⟨e, there, rfl⟩ := List.mem_map.mp mem
        exact (takes_withEdge.mp (each e there)).2
      · simp [withEdge]
    · rintro ⟨⟨takes, each⟩, ⟨next, apart⟩, rfl⟩
      refine ⟨g.withEdge (edgeUnder entry), ?_, (ih others).mpr ⟨fun e mem => ?_, apart, ?_⟩⟩
      · rw [readEdge_eq first, mapError_eq_ok_iff, addEdge_eq_ok_iff]
        exact ⟨takes, rfl⟩
      · exact takes_withEdge.mpr ⟨each e mem, next _ (List.mem_map_of_mem mem)⟩
      · simp [withEdge]

/-- What each entry gives or is refused for holds of the whole list. -/
theorem foldlM_result {P : Graph → Prop} {E : Failure → Prop} {read : Graph → Json → Except Failure Graph}
    (kept : ∀ entry ∈ entries, ∀ g g', P g → read g entry = .ok g' → P g')
    (refused : ∀ entry ∈ entries, ∀ g failure, read g entry = .error failure → E failure) (outset : P g) :
    (∀ g', entries.foldlM read g = .ok g' → P g') ∧ ∀ failure, entries.foldlM read g = .error failure → E failure := by
  induction entries generalizing g with
  | nil => exact ⟨fun g' h => Except.ok.inj h ▸ outset, nofun⟩
  | cons entry entries ih =>
    have ⟨kept₁, kept₂⟩ := List.forall_mem_cons.mp kept
    have ⟨refused₁, refused₂⟩ := List.forall_mem_cons.mp refused
    rw [List.foldlM_cons]
    cases first : read g entry with
    | error failure => exact ⟨nofun, fun _ h => Except.error.inj h ▸ refused₁ g failure first⟩
    | ok g₁ => exact ih kept₂ refused₂ (kept₁ g g₁ outset first)

/-! ## Documents -/

theorem isSame_text {a b : String} : Json.isSame (.text a) (.text b) = (a == b) := by
  simp [Json.isSame, Json.comparable]

/-- Two entries lead to different sockets if they differ in the node or in the socket. -/
theorem apart_iff {other : Json} : Apart (edgeUnder entry) (edgeUnder other) ↔ portUnder entry ≠ portUnder other := by
  simp [Apart, edgeUnder, portUnder, isSame_text]

theorem pairwise_apart_iff : (entries.map edgeUnder).Pairwise Apart ↔ (entries.map portUnder).Nodup := by
  rw [List.pairwise_map, List.Nodup, List.pairwise_map]
  exact ⟨fun h => h.imp apart_iff.mp, fun h => h.imp apart_iff.mpr⟩

/-- Nodes that were read have the ids of their entries. -/
theorem ids_of_described {nodes : List Node} (h : List.Forall₂ IsNode entries nodes) :
    nodes.map (·.id) = (entries.map (nameUnder · "id")).map .text := by
  induction h with
  | nil => rfl
  | cons isNode _ ih => simp only [List.map_cons, isNode.id, ih]

/-- There are nodes for entries if and only if all their kinds are known. -/
theorem exists_described_iff :
    (∃ nodes, List.Forall₂ IsNode entries nodes) ↔
      ∀ entry ∈ entries, ∃ kind : Kind, kind.HasName (tagUnder entry) := by
  induction entries with
  | nil => exact ⟨fun _ => nofun, fun _ => ⟨[], .nil⟩⟩
  | cons entry entries ih =>
    rw [List.forall_mem_cons, ← ih]
    constructor
    · rintro ⟨_, _ | ⟨isNode, described⟩⟩
      exact ⟨⟨_, isNode.kind⟩, _, described⟩
    · rintro ⟨⟨kind, known⟩, nodes, described⟩
      exact ⟨⟨.text (nameUnder entry "id"), kind, paramsUnder entry⟩ :: nodes, .cons ⟨rfl, known, rfl⟩ described⟩

theorem takes_of_described {nodes : List Node} (h : List.Forall₂ IsNode entries nodes) :
    Takes ⟨nodes, []⟩ (edgeUnder entry) ↔
      nameUnder entry "source" ∈ entries.map (nameUnder · "id") ∧
        nameUnder entry "target" ∈ entries.map (nameUnder · "id") := by
  have there : ∀ name, Graph.hasNode ⟨nodes, []⟩ (.text name) = true ↔ name ∈ entries.map (nameUnder · "id") := by
    intro name
    rw [hasNode_iff, ids_of_described h]
    simp
  rw [← there, ← there]
  exact ⟨fun takes => ⟨takes.source, takes.target⟩, fun ⟨source, target⟩ => ⟨source, target, nofun⟩⟩

theorem ofDocument_eq_ok_iff (form : Form document) :
    ofDocument document = .ok g ↔ Acceptable document ∧ Describes document g := by
  rw [ofDocument, bind_eq_ok]
  constructor
  · rintro ⟨g₁, nodes, edges⟩
    obtain ⟨-, ids, added, described, rfl⟩ := (foldlM_readNode_eq_ok_iff form.eachNode).mp nodes
    obtain ⟨takes, apart, rfl⟩ := (foldlM_readEdge_eq_ok_iff form.eachEdge).mp edges
    exact ⟨⟨ids, exists_described_iff.mp ⟨added, described⟩,
      fun entry mem => (takes_of_described described).mp (takes entry mem), pairwise_apart_iff.mp apart⟩, described, rfl⟩
  · rintro ⟨acceptable, described, edges⟩
    -- the nodes are there before the first edge is read
    refine ⟨⟨g.nodes, []⟩, ?_, ?_⟩
    · exact (foldlM_readNode_eq_ok_iff form.eachNode).mpr
        ⟨fun _ _ => rfl, acceptable.ids, g.nodes, described, rfl⟩
    · refine (foldlM_readEdge_eq_ok_iff form.eachEdge).mpr ⟨fun entry mem => ?_,
        pairwise_apart_iff.mpr acceptable.ports, ?_⟩
      · exact (takes_of_described described).mpr (acceptable.ends entry mem)
      · rw [List.nil_append, ← edges]

/-- What is refused is refused as a defect of the graph. -/
theorem ofDocument_eq_error (form : Form document) (h : ofDocument document = .error failure) :
    ∃ fault, failure = .graph fault := by
  have node : ∀ entry ∈ itemsOf document "nodes", ∀ g failure, readNode g entry = .error failure →
      ∃ fault, failure = .graph fault := by
    intro entry mem g failure refused
    rw [readNode_eq (form.eachNode entry mem).id] at refused
    split at refused
    · exact ⟨_, (Except.error.inj refused).symm⟩
    · cases kind : (Kind.parse (kindTag entry)).mapError Failure.graph with
      | error unknown =>
        rw [kind] at refused
        exact Except.error.inj refused ▸ mapError_graph_eq_error kind
      | ok known =>
        rw [kind] at refused
        cases refused
  have edge : ∀ entry ∈ itemsOf document "edges", ∀ g failure, readEdge g entry = .error failure →
      ∃ fault, failure = .graph fault := by
    intro entry mem g failure refused
    rw [readEdge_eq (form.eachEdge entry mem)] at refused
    exact mapError_graph_eq_error refused
  unfold ofDocument at h
  cases nodes : (itemsOf document "nodes").foldlM readNode empty with
  | error failure₁ =>
    rw [nodes] at h
    rw [← Except.error.inj h]
    exact (foldlM_result (P := fun _ => True) (fun _ _ _ _ _ _ => trivial) node trivial).2 failure₁ nodes
  | ok g₁ =>
    rw [nodes] at h
    exact (foldlM_result (P := fun _ => True) (fun _ _ _ _ _ _ => trivial) edge trivial).2 failure h

/-- Whatever edits are made of the empty graph, every node is found under its own id, edges join nodes, and no two of
them lead to the same socket of a node. An edge that does not fit in is refused and changes nothing; one that fits in
is put last. A document of the right form is accepted if and only if no check refuses it, and then the graph is the one
that it describes; otherwise the graph is at fault. -/
theorem edits_and_documents_checked :
    (∀ edits : List Edit, (edits.foldl edited empty).Wellformed ∧
      ∀ v n, (edits.foldl edited empty).node? v = some n ↔ n ∈ (edits.foldl edited empty).nodes ∧ n.id = v) ∧
    (∀ (g : Graph) (e : Edge),
      (g.Takes e → g.attempt (.addEdge e) = .ok (g.withEdge e)) ∧
      (¬ g.Takes e → (∃ fault, g.attempt (.addEdge e) = .error (.graph fault)) ∧ g.edited (.addEdge e) = g) ∧
      g.attempt (.connect e.source e.target e.targetSocket e.sourceSocket) = g.attempt (.addEdge e)) ∧
    ∀ document, Form document →
      ((∃ g, ofDocument document = .ok g) ↔ Acceptable document) ∧
      (∀ g, ofDocument document = .ok g → Describes document g) ∧
      (¬ Acceptable document → ∃ fault, ofDocument document = .error (.graph fault)) := by
  refine ⟨fun edits => ⟨edits_wellformed edits, fun v n => (edits_wellformed edits).node?_eq_some_iff⟩,
    fun g e => ⟨fun takes => ?_, fun unfit => ?_, rfl⟩, fun document form => ⟨⟨?_, ?_⟩, ?_, fun unacceptable => ?_⟩⟩
  · exact mapError_eq_ok_iff.mpr (addEdge_eq_ok_iff.mpr ⟨takes, rfl⟩)
  · cases result : g.attempt (.addEdge e) with
    | error failure =>
      obtain ⟨fault, rfl⟩ := mapError_graph_eq_error result
      exact ⟨⟨fault, rfl⟩, by rw [edited, result]⟩
    | ok g₁ => exact absurd (addEdge_eq_ok_iff.mp (mapError_eq_ok_iff.mp result)).1 unfit
  · rintro ⟨g, accepted⟩
    exact ((ofDocument_eq_ok_iff form).mp accepted).1
  · intro acceptable
    obtain ⟨nodes, described⟩ := exists_described_iff.mpr acceptable.kinds
    exact ⟨⟨nodes, (itemsOf document "edges").map edgeUnder⟩,
      (ofDocument_eq_ok_iff form).mpr ⟨acceptable, described, rfl⟩⟩
  · exact fun g accepted => ((ofDocument_eq_ok_iff form).mp accepted).2
  · cases result : ofDocument document with
    | error failure =>
      obtain ⟨fault, rfl⟩ := ofDocument_eq_error form result
      exact ⟨fault, rfl⟩
    | ok g => exact absurd ((ofDocument_eq_ok_iff form).mp result).1 unacceptable

/-- Two nodes, one called by a number and of a kind by its alias, the other with a kind in place of a type; and an edge
without handles. -/
def plainDocument : Json :=
  .object [("nodes", .list [.object [("id", .whole 1), ("type", .text "add"), ("params", .list [])],
      .object [("id", .text "c"), ("type", .null), ("kind", .text "color"), ("params", .object [("r", .whole 9)])]]),
    ("edges", .list [.object [("source", .text "c"), ("target", .text "1"), ("targetHandle", .null)]])]

/-- Two nodes with ids that are the same text. -/
def twinDocument : Json :=
  .object [("nodes", .list [.object [("id", .whole 1), ("type", .text "color")],
    .object [("id", .text "1"), ("type", .text "value")]])]

theorem form_plainDocument : Form plainDocument where
  object := ⟨_, rfl⟩
  nodes := trivial
  edges := trivial
  eachNode := List.forall_mem_cons.mpr ⟨⟨rfl, trivial, trivial⟩, List.forall_mem_cons.mpr
    ⟨⟨rfl, trivial, trivial⟩, nofun⟩⟩
  eachEdge := List.forall_mem_cons.mpr ⟨⟨rfl, rfl, trivial, trivial⟩, nofun⟩

theorem form_twinDocument : Form twinDocument where
  object := ⟨_, rfl⟩
  nodes := trivial
  edges := trivial
  eachNode := List.forall_mem_cons.mpr ⟨⟨rfl, trivial, trivial⟩, List.forall_mem_cons.mpr
    ⟨⟨rfl, trivial, trivial⟩, nofun⟩⟩
  eachEdge := nofun

theorem acceptable_plainDocument : Acceptable plainDocument where
  ids := by decide
  kinds := List.forall_mem_cons.mpr ⟨⟨.union, .inr rfl⟩, List.forall_mem_cons.mpr ⟨⟨.color, .inl rfl⟩, nofun⟩⟩
  ends := by decide
  ports := by decide

/-- The first of two documents is accepted, the second is refused. -/
theorem plain_accepted_twins_refused :
    (∃ g, ofDocument plainDocument = .ok g ∧ Describes plainDocument g) ∧
      ∃ fault, ofDocument twinDocument = .error (.graph fault) := by
  obtain ⟨-, -, documents⟩ := edits_and_documents_checked
  obtain ⟨⟨-, accepted⟩, described, -⟩ := documents plainDocument form_plainDocument
  obtain ⟨g, read⟩ := accepted acceptable_plainDocument
  obtain ⟨-, -, refused⟩ := documents twinDocument form_twinDocument
  exact ⟨⟨g, read, described g read⟩, refused fun acceptable => absurd acceptable.ids (by decide)⟩

end Graph

end VectorGraph
