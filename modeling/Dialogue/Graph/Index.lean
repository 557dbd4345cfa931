import Std.Data.HashMap
import Dialogue.Graph.Document
import Dialogue.Graph.IdSet
/-!
An index of a document.

The index answers the questions that a walk through the graph asks (the node with an id, the edges
that leave or enter it, whether several edges enter it) without a search through the document.  It
is filled node by node and edge by edge, in the order of the document, so the answers are those of
the document: the first node of an id, and edges in the order of the document.
-/

namespace Dialogue

/-- The nodes of a list by their ids; the first node of an id counts. -/
def nodesById (nodes : List Node) : Std.HashMap String Node :=
  nodes.foldl (fun byId n => byId.insertIfNew n.id n) ∅

/-- A node with an id that is known already changes nothing. -/
theorem getElem?_foldl_insertIfNew (byId : Std.HashMap String Node) (nodes : List Node)
    (id : String) :
    (nodes.foldl (fun byId n => byId.insertIfNew n.id n) byId)[id]? =
      byId[id]?.or (nodes.find? (·.id == id)) := by
  induction nodes generalizing byId with
  | nil => simp
  | cons n nodes ih =>
    rw [List.foldl_cons, ih, Std.HashMap.getElem?_insertIfNew, List.find?_cons]
    cases hn : n.id == id with
    | false => simp
    | true =>
      obtain rfl : n.id = id := beq_iff_eq.1 hn
      by_cases hmem : n.id ∈ byId <;> simp [hmem]

/-- Looking up an id finds the first node that has it. -/
theorem getElem?_nodesById (nodes : List Node) (id : String) :
    (nodesById nodes)[id]? = nodes.find? (·.id == id) := by
  simp [nodesById, getElem?_foldl_insertIfNew]

/-- Puts an edge at the end of its group. -/
def addEdge (endpoint : Edge → String) (groups : Std.HashMap String (Array Edge)) (e : Edge) :
    Std.HashMap String (Array Edge) :=
  groups.alter (endpoint e) fun group => some ((group.getD #[]).push e)

/-- The edges of a list by one of their ends, each group in the order of the list. -/
def edgesBy (endpoint : Edge → String) (edges : List Edge) : Std.HashMap String (Array Edge) :=
  edges.foldl (addEdge endpoint) ∅

theorem getD_foldl_addEdge (endpoint : Edge → String) (groups : Std.HashMap String (Array Edge))
    (edges : List Edge) (id : String) :
    ((edges.foldl (addEdge endpoint) groups).getD id #[]).toList =
      (groups.getD id #[]).toList ++ edges.filter (endpoint · == id) := by
  induction edges generalizing groups with
  | nil => simp
  | cons e edges ih =>
    rw [List.foldl_cons, ih, addEdge, Std.HashMap.getD_alter, List.filter_cons]
    split
    · next h =>
      obtain rfl : endpoint e = id := beq_iff_eq.1 h
      simp [Std.HashMap.getD_eq_getD_getElem?]
    · rfl

/-- Looking up an id finds the edges that have it at that end, in order. -/
theorem getD_edgesBy (endpoint : Edge → String) (edges : List Edge) (id : String) :
    ((edgesBy endpoint edges).getD id #[]).toList = edges.filter (endpoint · == id) := by
  simp [edgesBy, getD_foldl_addEdge]

/-- The ids whose groups have more than one edge. -/
def crowded (groups : Std.HashMap String (Array Edge)) : IdSet :=
  .ofList ((groups.toList.filter (1 < ·.2.size)).map Prod.fst)

theorem mem_crowded {groups : Std.HashMap String (Array Edge)} {id : String} :
    id ∈ crowded groups ↔ 1 < (groups.getD id #[]).size := by
  rw [crowded, IdSet.mem_ofList, Std.HashMap.getD_eq_getD_getElem?]
  constructor
  · intro h
    obtain ⟨⟨id, group⟩, hgroup, rfl⟩ := List.mem_map.1 h
    obtain ⟨hmem, hsize⟩ := List.mem_filter.1 hgroup
    rw [Std.HashMap.mem_toList_iff_getElem?_eq_some.1 hmem]
    simpa using hsize
  · intro h
    cases hgroup : groups[id]? with
    | none => simp [hgroup] at h
    | some group =>
      rw [hgroup] at h
      have hmem := Std.HashMap.mem_toList_iff_getElem?_eq_some.2 hgroup
      exact List.mem_map.2 ⟨(id, group), List.mem_filter.2 ⟨hmem, by simpa using h⟩, rfl⟩

/-- An index of a document. -/
structure Index where
  /-- The nodes by their ids. -/
  nodes : Std.HashMap String Node
  /-- The edges by the nodes that they leave. -/
  leaving : Std.HashMap String (Array Edge)
  /-- The edges by the nodes that they enter. -/
  entering : Std.HashMap String (Array Edge)
  /-- The ids that more than one edge enters. -/
  convergence : IdSet
  /-- The node at which the dialogue begins. -/
  start? : Option Node

namespace Index

/-- The index of a document. -/
def ofDocument (d : Document) : Index :=
  let entering := edgesBy Edge.target d.edges
  { nodes := nodesById d.nodes
    leaving := edgesBy Edge.source d.edges
    entering
    convergence := crowded entering
    start? := d.start? }

/-- The node with a given id. -/
def node? (index : Index) (id : String) : Option Node :=
  index.nodes[id]?

@[simp] theorem node?_ofDocument (d : Document) (id : String) :
    (ofDocument d).node? id = d.node? id :=
  getElem?_nodesById d.nodes id

/-- How many ids nodes have. -/
def nodeCount (index : Index) : Nat :=
  index.nodes.size

/-- The edges that leave `id`. -/
def outgoing (index : Index) (id : String) : List Edge :=
  (index.leaving.getD id #[]).toList

@[simp] theorem outgoing_ofDocument (d : Document) (id : String) :
    (ofDocument d).outgoing id = d.outgoing id :=
  getD_edgesBy Edge.source d.edges id

/-- The edges that enter `id`. -/
def incoming (index : Index) (id : String) : List Edge :=
  (index.entering.getD id #[]).toList

@[simp] theorem incoming_ofDocument (d : Document) (id : String) :
    (ofDocument d).incoming id = d.incoming id :=
  getD_edgesBy Edge.target d.edges id

/-- Whether more than one edge enters `id`. -/
def isConvergence (index : Index) (id : String) : Bool :=
  index.convergence.contains id

theorem isConvergence_ofDocument (d : Document) (id : String) :
    (ofDocument d).isConvergence id = decide (1 < (d.incoming id).length) := by
  have hcrowded : id ∈ (ofDocument d).convergence ↔ 1 < (d.incoming id).length := by
    rw [← incoming_ofDocument]
    exact mem_crowded
  rw [isConvergence, Bool.eq_iff_iff, decide_eq_true_iff, ← Std.HashSet.mem_iff_contains, hcrowded]

/-- The ids that more than one edge enters, in increasing order. -/
def convergenceIds (index : Index) : List String :=
  index.convergence.sorted

/-- The first edge that leaves `id` at the outlet `handle`. -/
def edgeAt? (index : Index) (id handle : String) : Option Edge :=
  (index.outgoing id).find? (·.handle == some handle)

/-- Where the first edge at the outlet `handle` of `id` leads. -/
def targetAt? (index : Index) (id handle : String) : Option String :=
  (index.edgeAt? id handle).map Edge.target

/-- Where the first edge that leaves `id` leads. -/
def firstTarget? (index : Index) (id : String) : Option String :=
  (index.outgoing id).head?.map Edge.target

end Index

end Dialogue
