import Mathlib.Data.String.Basic
import Mathlib.Logic.Relation
import Mathlib.Tactic.Common
import Dialogue.Graph.Reach
/-!
What can be reached along edges, and from where.

The search follows the edges that leave an id or those that enter it, and it takes the two kinds
from two groupings of the edges.  Both groupings show the same relation between ids, once from each
side (`Document.Leads`, `leadsAlong_iff`): some edge goes from the one to the other.  The ids need
not be those of nodes.

While the search goes on, every id that it has found can be reached, and whatever the edges at an id
show has been found unless the id still waits (`ReachSearch.Sound`).  Following the edges at the
next id keeps this (`Sound.turn`), and in the end no id waits.

The main statement (`reach_comprises`) is that the search finds exactly the ids that are connected
to where it starts, and the edges at them, however the answer is read (`Reach.Comprises`).  So the
ids downstream of an id are those that have it upstream.
-/

namespace Dialogue

open Relation

namespace IdSet

lemma mem_sorted {s : IdSet} {id : String} : id ∈ s.sorted ↔ id ∈ s := by
  rw [sorted, List.mem_mergeSort, Std.HashSet.mem_toList]

/-- The members of a set are listed in increasing order, each once. -/
lemma pairwise_sorted (s : IdSet) : s.sorted.Pairwise (· < ·) := by
  have htrans : ∀ a b c : String, decide (a ≤ b) → decide (b ≤ c) → decide (a ≤ c) := by
    intro a b c hab hbc
    exact decide_eq_true (le_trans (of_decide_eq_true hab) (of_decide_eq_true hbc))
  have htotal : ∀ a b : String, decide (a ≤ b) || decide (b ≤ a) := by
    intro a b
    simpa using le_total a b
  have hle : s.sorted.Pairwise (· ≤ ·) :=
    (List.pairwise_mergeSort htrans htotal s.toList).imp of_decide_eq_true
  have hnodup : s.toList.Nodup := Std.HashSet.distinct_toList.imp fun h => by simpa using h
  have hne : s.sorted.Pairwise (· ≠ ·) := (List.mergeSort_perm _ _).nodup_iff.2 hnodup
  exact hle.imp₂ (fun _ _ => lt_of_le_of_ne) hne

end IdSet

namespace Document

/-- Some edge of the document goes from `x` to `y`. -/
def Leads (d : Document) (x y : String) : Prop :=
  ∃ e ∈ d.edges, e.source = x ∧ e.target = y

/-- Some edge goes from `x` to `y` if it is followed in the given direction. -/
def LeadsAlong (d : Document) : Direction → String → String → Prop
  | .forward => d.Leads
  | .backward => Function.swap d.Leads

end Document

/-- Where an edge is left at if it is followed in the given direction. -/
def Edge.origin (e : Edge) : Direction → String
  | .forward => e.source
  | .backward => e.target

namespace Index

variable {d : Document} {direction : Direction} {x y : String} {e : Edge}

lemma mem_edgesAlong :
    e ∈ (ofDocument d).edgesAlong y direction ↔ e ∈ d.edges ∧ e.origin direction = y := by
  cases direction with
  | forward => simp [edgesAlong, Edge.origin, Document.outgoing]
  | backward => simp [edgesAlong, Edge.origin, Document.incoming]

lemma leadsAlong_iff : d.LeadsAlong direction x y ↔
    ∃ e ∈ (ofDocument d).edgesAlong x direction, e.far direction = y := by
  simp only [mem_edgesAlong, and_assoc]
  cases direction with
  | forward => exact Iff.rfl
  | backward =>
    refine exists_congr fun e => and_congr_right fun _ => ?_
    exact and_comm

end Index

namespace ReachSearch

/-! ## Following edges -/

section Follow

variable {direction : Direction} {s : ReachSearch} {e : Edge} {es : List Edge} {x id : String}

lemma mem_nodes_follow : x ∈ (s.follow direction e).found.nodes ↔
    x ∈ s.found.nodes ∨ e.far direction = x := by
  rw [follow]
  split
  · next h =>
    refine ⟨.inl, ?_⟩
    rintro (hx | rfl)
    · exact hx
    · exact Std.HashSet.mem_iff_contains.2 h
  · rw [Std.HashSet.mem_insert, beq_iff_eq, or_comm]

lemma mem_edges_follow : id ∈ (s.follow direction e).found.edges ↔
    id ∈ s.found.edges ∨ e.id = id := by
  have hedges : (s.follow direction e).found.edges = s.found.edges.insert e.id := by
    rw [follow]
    split <;> rfl
  rw [hedges, Std.HashSet.mem_insert, beq_iff_eq, or_comm]

lemma mem_waiting_follow : x ∈ waiting (s.follow direction e).queue ↔
    x ∈ waiting s.queue ∨ x ∉ s.found.nodes ∧ e.far direction = x := by
  rw [follow]
  split
  · next h =>
    refine ⟨.inl, ?_⟩
    rintro (hx | ⟨hnew, rfl⟩)
    · exact hx
    · exact absurd (Std.HashSet.mem_iff_contains.2 h) hnew
  · next h =>
    rw [waiting_enqueue, List.mem_append, List.mem_singleton]
    refine or_congr_right ⟨?_, fun hx => hx.2.symm⟩
    rintro rfl
    exact ⟨mt Std.HashSet.mem_iff_contains.1 h, rfl⟩

lemma mem_nodes_foldl : x ∈ (es.foldl (follow direction) s).found.nodes ↔
    x ∈ s.found.nodes ∨ ∃ e ∈ es, e.far direction = x := by
  induction es generalizing s with
  | nil => simp
  | cons e es ih =>
    rw [List.foldl_cons, ih, mem_nodes_follow, List.exists_mem_cons_iff, or_assoc]

lemma mem_edges_foldl : id ∈ (es.foldl (follow direction) s).found.edges ↔
    id ∈ s.found.edges ∨ ∃ e ∈ es, e.id = id := by
  induction es generalizing s with
  | nil => simp
  | cons e es ih =>
    rw [List.foldl_cons, ih, mem_edges_follow, List.exists_mem_cons_iff, or_assoc]

lemma mem_waiting_foldl : x ∈ waiting (es.foldl (follow direction) s).queue ↔
    x ∈ waiting s.queue ∨ x ∉ s.found.nodes ∧ ∃ e ∈ es, e.far direction = x := by
  induction es generalizing s with
  | nil => simp
  | cons e es ih =>
    rw [List.foldl_cons, ih, mem_waiting_follow, mem_nodes_follow, List.exists_mem_cons_iff]
    tauto

end Follow

/-! ## The search -/

/-- What holds of a search from `x` while it is under way. -/
structure Sound (d : Document) (direction : Direction) (x : String) (s : ReachSearch) : Prop where
  start_mem : x ∈ s.found.nodes
  /-- What was found can be reached. -/
  reached : ∀ y ∈ s.found.nodes, ReflTransGen (d.LeadsAlong direction) x y
  /-- The edges that were followed leave what was found. -/
  followed : ∀ id ∈ s.found.edges, ∃ e ∈ d.edges, e.id = id ∧ e.origin direction ∈ s.found.nodes
  waiting_mem : ∀ y ∈ waiting s.queue, y ∈ s.found.nodes
  /-- All edges were followed that leave an id which does not wait. -/
  closed : ∀ y ∈ s.found.nodes, y ∉ waiting s.queue →
    ∀ e ∈ (Index.ofDocument d).edgesAlong y direction,
      e.id ∈ s.found.edges ∧ e.far direction ∈ s.found.nodes

namespace Sound

variable {d : Document} {direction : Direction} {x : String} {s : ReachSearch}

lemma start (d : Document) (direction : Direction) (x : String) :
    (ReachSearch.start x).Sound d direction x where
  start_mem := Std.HashSet.mem_insert_self
  reached y hy := by
    obtain rfl : x = y := by simpa [ReachSearch.start] using hy
    exact .refl
  followed id hid := by simp [ReachSearch.start] at hid
  waiting_mem y hy := by
    obtain rfl := List.mem_singleton.1 hy
    exact Std.HashSet.mem_insert_self
  closed y hy hwaiting := by
    obtain rfl : x = y := by simpa [ReachSearch.start] using hy
    exact absurd (List.mem_singleton_self x) hwaiting

/-- One turn of the search: an id is taken out of the queue and all edges at it are followed. -/
theorem turn {current : String} {queue : Std.Queue String} (h : s.Sound d direction x)
    (hqueue : s.queue.dequeue? = some (current, queue)) :
    (((Index.ofDocument d).edgesAlong current direction).foldl (follow direction)
      { s with queue }).Sound d direction x := by
  have hwaiting := waiting_of_dequeue?_some hqueue
  have hcurrent : current ∈ s.found.nodes := by
    refine h.waiting_mem current ?_
    rw [hwaiting]
    exact List.mem_cons_self
  refine ⟨?_, fun y hy => ?_, fun id hid => ?_, fun y hy => ?_, fun y hy hy' e he => ?_⟩
  · exact mem_nodes_foldl.2 (.inl h.start_mem)
  · rcases mem_nodes_foldl.1 hy with hy | hfar
    · exact h.reached y hy
    · exact (h.reached current hcurrent).tail (Index.leadsAlong_iff.2 hfar)
  · rcases mem_edges_foldl.1 hid with hid | ⟨e, he, rfl⟩
    · obtain ⟨e, he, heq, horigin⟩ := h.followed id hid
      exact ⟨e, he, heq, mem_nodes_foldl.2 (.inl horigin)⟩
    · obtain ⟨hmem, horigin⟩ := Index.mem_edgesAlong.1 he
      exact ⟨e, hmem, rfl, mem_nodes_foldl.2 (.inl (horigin ▸ hcurrent))⟩
  · rcases mem_waiting_foldl.1 hy with hy | ⟨-, hfar⟩
    · refine mem_nodes_foldl.2 (.inl (h.waiting_mem y ?_))
      rw [hwaiting]
      exact List.mem_cons_of_mem _ hy
    · exact mem_nodes_foldl.2 (.inr hfar)
  · rw [mem_edges_foldl, mem_nodes_foldl]
    by_cases hcur : y = current
    · subst hcur
      exact ⟨.inr ⟨e, he, rfl⟩, .inr ⟨e, he, rfl⟩⟩
    · -- the id was left in an earlier turn, since a new one would wait now
      rw [mem_waiting_foldl, not_or, not_and] at hy'
      have hold : y ∈ s.found.nodes := by
        rcases mem_nodes_foldl.1 hy with hy | hfar
        · exact hy
        · exact by_contra fun hnew => hy'.2 hnew hfar
      have hleft : y ∉ waiting s.queue := by
        rw [hwaiting, List.mem_cons, not_or]
        exact ⟨hcur, hy'.1⟩
      exact (h.closed y hold hleft e he).imp .inl .inl

end Sound

/-- Nothing waits at the end of a search. -/
lemma exists_sound_reachFrom {d : Document} {direction : Direction} {x : String} (s : ReachSearch)
    (h : s.Sound d direction x) :
    ∃ last : ReachSearch, last.Sound d direction x ∧ waiting last.queue = [] ∧
      (Index.ofDocument d).reachFrom direction s = last.found := by
  fun_induction (Index.ofDocument d).reachFrom direction s with
  | case1 s hqueue => exact ⟨s, h, waiting_of_dequeue?_none hqueue, rfl⟩
  | case2 s current queue hqueue ih => exact ih (h.turn hqueue)

end ReachSearch

namespace Index

variable {d : Document} {direction : Direction} {x y : String}

/-- The search comes to the ids that are connected to its start, and to no others. -/
lemma mem_nodes_reach :
    y ∈ ((ofDocument d).reach direction x).nodes ↔ ReflTransGen (d.LeadsAlong direction) x y := by
  obtain ⟨last, hsound, hwaiting, hreach⟩ :=
    ReachSearch.exists_sound_reachFrom _ (.start d direction x)
  rw [reach, hreach]
  refine ⟨hsound.reached y, fun h => ?_⟩
  induction h with
  | refl => exact hsound.start_mem
  | tail _ hstep ih =>
    obtain ⟨e, he, rfl⟩ := leadsAlong_iff.1 hstep
    exact (hsound.closed _ ih (hwaiting ▸ List.not_mem_nil) e he).2

/-- The edges in reach are those that are left at an id in reach. -/
lemma mem_edges_reach {id : String} :
    id ∈ ((ofDocument d).reach direction x).edges ↔ ∃ e ∈ d.edges, e.id = id ∧
      ReflTransGen (d.LeadsAlong direction) x (e.origin direction) := by
  simp only [← mem_nodes_reach]
  obtain ⟨last, hsound, hwaiting, hreach⟩ :=
    ReachSearch.exists_sound_reachFrom _ (.start d direction x)
  rw [reach, hreach]
  refine ⟨hsound.followed id, ?_⟩
  rintro ⟨e, he, rfl, horigin⟩
  exact (hsound.closed _ horigin (hwaiting ▸ List.not_mem_nil) e (mem_edgesAlong.2 ⟨he, rfl⟩)).1

end Index

namespace Reach

/-- What is in reach are the ids `nodes`, and the edges with the ids `edges`: both are listed in
increasing order without repetitions, and both can be asked for one by one. -/
structure Comprises (r : Reach) (nodes edges : Set String) : Prop where
  increasing_nodeIds : r.nodeIds.Pairwise (· < ·)
  mem_nodeIds : ∀ id, id ∈ r.nodeIds ↔ id ∈ nodes
  hasNode_iff : ∀ id, r.hasNode id ↔ id ∈ nodes
  increasing_edgeIds : r.edgeIds.Pairwise (· < ·)
  mem_edgeIds : ∀ id, id ∈ r.edgeIds ↔ id ∈ edges
  hasEdge_iff : ∀ id, r.hasEdge id ↔ id ∈ edges

/-- The lists and the questions show the same ids. -/
lemma comprises_of {r : Reach} {nodes edges : Set String} (hnodes : ∀ id, id ∈ r.nodes ↔ id ∈ nodes)
    (hedges : ∀ id, id ∈ r.edges ↔ id ∈ edges) : r.Comprises nodes edges where
  increasing_nodeIds := IdSet.pairwise_sorted _
  mem_nodeIds id := by rw [nodeIds, IdSet.mem_sorted, hnodes]
  hasNode_iff id := by rw [hasNode, ← Std.HashSet.mem_iff_contains, hnodes]
  increasing_edgeIds := IdSet.pairwise_sorted _
  mem_edgeIds id := by rw [edgeIds, IdSet.mem_sorted, hedges]
  hasEdge_iff id := by rw [hasEdge, ← Std.HashSet.mem_iff_contains, hedges]

end Reach

namespace Index

/-- The search is exact.  Downstream of an id are the ids that can be reached from it and the edges
that leave one of them, upstream are the ids from which it can be reached and the edges that enter
one of them, and so one id is downstream of another exactly if the other is upstream of it. -/
theorem reach_comprises (d : Document) (x : String) :
    ((ofDocument d).reach .forward x).Comprises
        {y | ReflTransGen d.Leads x y}
        {id | ∃ e ∈ d.edges, e.id = id ∧ ReflTransGen d.Leads x e.source} ∧
      ((ofDocument d).reach .backward x).Comprises
        {y | ReflTransGen d.Leads y x}
        {id | ∃ e ∈ d.edges, e.id = id ∧ ReflTransGen d.Leads e.target x} ∧
      ∀ y, ((ofDocument d).reach .forward x).hasNode y ↔
        ((ofDocument d).reach .backward y).hasNode x := by
  have halong : ∀ direction x, ((ofDocument d).reach direction x).Comprises
      {y | ReflTransGen (d.LeadsAlong direction) x y}
      {id | ∃ e ∈ d.edges, e.id = id ∧
        ReflTransGen (d.LeadsAlong direction) x (e.origin direction)} :=
    fun _ _ => Reach.comprises_of (fun _ => mem_nodes_reach) fun _ => mem_edges_reach
  have hforward := halong .forward
  have hbackward := halong .backward
  simp only [Document.LeadsAlong, reflTransGen_swap, Edge.origin] at hforward hbackward
  refine ⟨hforward x, hbackward x, fun y => ?_⟩
  exact ((hforward x).hasNode_iff y).trans ((hbackward y).hasNode_iff x).symm

end Index

end Dialogue
