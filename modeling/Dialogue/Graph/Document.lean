import Dialogue.Graph.Menu
/-!
Dialogue graphs.

A document is a list of nodes and a list of edges, in the order in which they were drawn.  Nothing
is asked of them: ids may repeat, and edges may lead nowhere.  Where an id repeats, the first node
counts.
-/

namespace Dialogue

/-- What a node is for. -/
inductive NodeKind
  /-- The dialogue begins here. -/
  | start
  /-- The player chooses. -/
  | menu (menu : Menu)
  /-- Things happen. -/
  | action (actions : List Action)
  /-- The dialogue branches. -/
  | condition (condition : Condition)
  /-- The dialogue ends here. -/
  | finish
  /-- A frame around other nodes. -/
  | group
  /-- A remark. -/
  | comment
deriving DecidableEq

/-- The name of the kind of a node. -/
def NodeKind.name : NodeKind → String
  | start => "start"
  | menu _ => "menu"
  | action _ => "action"
  | condition _ => "condition"
  | finish => "end"
  | group => "group"
  | comment => "comment"

/-- A node of a dialogue graph. -/
structure Node where
  /-- The name by which edges refer to the node. -/
  id : String
  /-- A title for people. -/
  label : String := ""
  /-- A muted node is passed over. -/
  muted : Bool := false
  /-- What the node is for. -/
  kind : NodeKind
deriving DecidableEq

/-- Whether the dialogue begins at the node. -/
def Node.isStart (n : Node) : Bool :=
  match n.kind with
  | .start => true
  | _ => false

/-- An edge of a dialogue graph. -/
structure Edge where
  /-- The name of the edge. -/
  id : String
  /-- The node that the edge leaves. -/
  source : String
  /-- The node that the edge enters. -/
  target : String
  /-- The outlet of the source at which the edge is fixed. -/
  handle : Option String := none
deriving DecidableEq

/-- The outlet of a condition that holds. -/
def trueHandle : String := "true"

/-- The outlet of a condition that does not hold. -/
def falseHandle : String := "false"

/-- The outlet of a menu that was cancelled. -/
def cancelHandle : String := "cancel"

/-- The outlet of the choice at `index`. -/
def choiceHandle (index : Nat) : String :=
  "choice-" ++ toString index

/-- A dialogue graph as it was drawn. -/
structure Document where
  /-- The nodes, in order. -/
  nodes : List Node := []
  /-- The edges, in order. -/
  edges : List Edge := []
deriving DecidableEq

namespace Document

/-- The first node at which the dialogue begins. -/
def start? (d : Document) : Option Node :=
  d.nodes.find? Node.isStart

/-- The first node with a given id. -/
def node? (d : Document) (id : String) : Option Node :=
  d.nodes.find? (·.id == id)

/-- The edges that leave `id`, in order. -/
def outgoing (d : Document) (id : String) : List Edge :=
  d.edges.filter (·.source == id)

/-- The edges that enter `id`, in order. -/
def incoming (d : Document) (id : String) : List Edge :=
  d.edges.filter (·.target == id)

/-- The document with one more node at the end. -/
def addNode (d : Document) (n : Node) : Document :=
  { d with nodes := d.nodes ++ [n] }

/-- The document with one more edge at the end. -/
def addEdge (d : Document) (e : Edge) : Document :=
  { d with edges := d.edges ++ [e] }

/-- The document with the nodes of that id muted, or no longer muted. -/
def setMuted (d : Document) (id : String) (muted : Bool) : Document :=
  { d with nodes := d.nodes.map fun n => if n.id == id then { n with muted } else n }

/-- The document without the nodes of that id. -/
def dropNode (d : Document) (id : String) : Document :=
  { d with nodes := d.nodes.filter (·.id != id) }

/-- The document without the edges of that id. -/
def dropEdge (d : Document) (id : String) : Document :=
  { d with edges := d.edges.filter (·.id != id) }

/-- The document with a chain of `count` nodes without actions at the end; `stem` and a number name
each node and, with `-e` between them, the edge that leaves it. -/
def addChain (d : Document) (stem : String) (count : Nat) : Document :=
  let name (i : Nat) : String := stem ++ toString i
  let node (i : Nat) : Node := { id := name i, kind := .action [] }
  let edge (i : Nat) : Edge :=
    { id := stem ++ "-e" ++ toString i, source := name i, target := name (i + 1) }
  { nodes := d.nodes ++ (List.range count).map node
    edges := d.edges ++ (List.range (count - 1)).map edge }

end Document

end Dialogue
