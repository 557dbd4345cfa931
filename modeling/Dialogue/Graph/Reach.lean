import Dialogue.Graph.Index
import Dialogue.Graph.Queue
/-!
Which parts of a graph hang together.

The search keeps the ids that it has found but not yet left in a queue.  It takes one id after the
other out of the queue, follows the edges at it, and puts the ids to which they lead in the queue if
they are new.  The ids need not be those of nodes: an edge may lead to an id that no node has.
-/

namespace Dialogue

/-- Which way edges are followed. -/
inductive Direction
  | forward
  | backward
deriving DecidableEq

/-- Where an edge leads if it is followed in a direction. -/
def Edge.far (e : Edge) : Direction → String
  | .forward => e.target
  | .backward => e.source

namespace Index

/-- The edges at `id`, in a direction. -/
def edgesAlong (index : Index) (id : String) : Direction → List Edge
  | .forward => index.outgoing id
  | .backward => index.incoming id

/-- All edges of the index by where they are left at in a direction. -/
def groupsAlong (index : Index) : Direction → Std.HashMap String (Array Edge)
  | .forward => index.leaving
  | .backward => index.entering

/-- All ids to which an edge leads, in a direction. -/
def endsAlong (index : Index) (direction : Direction) : List String :=
  ((index.groupsAlong direction).toList.flatMap (·.2.toList)).map (·.far direction)

theorem far_mem_endsAlong {index : Index} {direction : Direction} {id : String} {e : Edge}
    (h : e ∈ index.edgesAlong id direction) : e.far direction ∈ index.endsAlong direction := by
  have hgroup : e ∈ ((index.groupsAlong direction).getD id #[]).toList := by
    cases direction <;> exact h
  rw [Std.HashMap.getD_eq_getD_getElem?] at hgroup
  cases hget : (index.groupsAlong direction)[id]? with
  | none => simp [hget] at hgroup
  | some group =>
    rw [hget] at hgroup
    have hmem := Std.HashMap.mem_toList_iff_getElem?_eq_some.2 hget
    exact List.mem_map.2 ⟨e, List.mem_flatMap.2 ⟨_, hmem, hgroup⟩, rfl⟩

end Index

/-- The part of a graph that can be reached from a node. -/
structure Reach where
  /-- The ids of the nodes. -/
  nodes : IdSet
  /-- The ids of the edges that are followed. -/
  edges : IdSet

namespace Reach

/-- The ids of the nodes, in increasing order. -/
def nodeIds (r : Reach) : List String :=
  r.nodes.sorted

/-- The ids of the edges, each once and in increasing order. -/
def edgeIds (r : Reach) : List String :=
  r.edges.sorted

/-- Whether a node can be reached. -/
def hasNode (r : Reach) (id : String) : Bool :=
  r.nodes.contains id

/-- Whether an edge with that id is in reach. -/
def hasEdge (r : Reach) (id : String) : Bool :=
  r.edges.contains id

end Reach

/-- A search that is under way. -/
structure ReachSearch where
  /-- What it has found. -/
  found : Reach
  /-- The ids that it has found and not left yet. -/
  queue : Std.Queue String

namespace ReachSearch

/-- The search that is about to leave `id`. -/
def start (id : String) : ReachSearch where
  found := ⟨(∅ : IdSet).insert id, ∅⟩
  queue := Std.Queue.empty.enqueue id

/-- Follows an edge.  The id to which it leads is put in the queue if it is new. -/
def follow (direction : Direction) (s : ReachSearch) (e : Edge) : ReachSearch :=
  let edges := s.found.edges.insert e.id
  if s.found.nodes.contains (e.far direction) then { s with found.edges := edges }
  else
    { found := ⟨s.found.nodes.insert (e.far direction), edges⟩
      queue := s.queue.enqueue (e.far direction) }

/-- How many of the ids are still to be found or to be left. -/
def remaining (ids : List String) (s : ReachSearch) : Nat :=
  (s.found.nodes.missing ids).length + (waiting s.queue).length

/-- What is put in the queue has been found. -/
theorem remaining_follow_le {direction : Direction} {ids : List String} {e : Edge}
    (s : ReachSearch) (h : e.far direction ∈ ids) :
    (s.follow direction e).remaining ids ≤ s.remaining ids := by
  rw [follow]
  split
  · exact Nat.le_refl _
  · next hnew =>
    have hlt := IdSet.length_missing_insert_lt h (mt Std.HashSet.mem_iff_contains.1 hnew)
    simp only [remaining, waiting_enqueue, List.length_append, List.length_singleton]
    omega

theorem remaining_foldl_le {direction : Direction} {ids : List String} {es : List Edge}
    (s : ReachSearch) (h : ∀ e ∈ es, e.far direction ∈ ids) :
    (es.foldl (follow direction) s).remaining ids ≤ s.remaining ids := by
  induction es generalizing s with
  | nil => exact Nat.le_refl _
  | cons e es ih =>
    obtain ⟨he, hes⟩ := List.forall_mem_cons.1 h
    exact Nat.le_trans (ih (s.follow direction e) hes) (s.remaining_follow_le he)

end ReachSearch

namespace Index

/-- Goes on with a search until no id is left in the queue. -/
def reachFrom (index : Index) (direction : Direction) (s : ReachSearch) : Reach :=
  match _h : s.queue.dequeue? with
  | none => s.found
  | some (current, queue) =>
    index.reachFrom direction
      ((index.edgesAlong current direction).foldl (.follow direction) { s with queue })
termination_by s.remaining (index.endsAlong direction)
decreasing_by
  refine Nat.lt_of_le_of_lt (ReachSearch.remaining_foldl_le _ fun e => far_mem_endsAlong) ?_
  simp only [ReachSearch.remaining, waiting_of_dequeue?_some _h, List.length_cons]
  omega

/-- What can be reached from `id` along edges in a direction. -/
def reach (index : Index) (direction : Direction) (id : String) : Reach :=
  index.reachFrom direction (.start id)

end Index

end Dialogue
