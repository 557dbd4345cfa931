import Mathlib.Data.Finset.Card
import Mathlib.Data.Finset.Dedup
import Dialogue.Proofs.Layout
import Dialogue.Proofs.Reachability
/-!
The index of a document answers as the document does.

An index is asked for single nodes and for the edges at an id; it also counts its nodes and lists
the ids at which edges come together.  `Index.Represents` says what each answer has to be, in terms
of the two lists of the document alone, and `represents_ofDocument` that the index of a document
gives these answers, however often ids repeat and wherever edges lead.
-/

namespace Dialogue.Index

variable {d : Document} {id : String}

/-! ## Where edges come together -/

lemma isConvergence_iff : (ofDocument d).isConvergence id = true ↔ 2 ≤ (d.incoming id).length := by
  rw [isConvergence_ofDocument, decide_eq_true_iff, Nat.succ_le_iff]

lemma mem_convergenceIds : id ∈ (ofDocument d).convergenceIds ↔ 2 ≤ (d.incoming id).length := by
  rw [convergenceIds, IdSet.mem_sorted, Std.HashSet.mem_iff_contains, ← isConvergence,
    isConvergence_iff]

/-! ## Nodes -/

/-- There is one key for each id, whether one node has it or several. -/
lemma nodeCount_ofDocument (d : Document) :
    (ofDocument d).nodeCount = (d.nodes.map Node.id).toFinset.card := by
  have hkeys : (ofDocument d).nodes.keys.Nodup :=
    Std.HashMap.distinct_keys.imp fun h => by simpa using h
  have hmem : (ofDocument d).nodes.keys.toFinset = (d.nodes.map Node.id).toFinset := by
    ext x
    rw [List.mem_toFinset, List.mem_toFinset, Std.HashMap.mem_keys,
      ← Std.HashMap.isSome_getElem?_iff_mem, ← node?, node?_ofDocument, Document.node?]
    simp
  rw [← hmem, List.toFinset_card_of_nodup hkeys, Std.HashMap.length_keys, nodeCount]

/-- A search through the nodes finds the first one with the id. -/
lemma node?_eq_some_iff {n : Node} : d.node? id = some n ↔
    ∃ before after, d.nodes = before ++ n :: after ∧ n.id = id ∧ ∀ k ∈ before, k.id ≠ id := by
  rw [Document.node?, List.find?_eq_some_iff_append]
  constructor
  · rintro ⟨hid, before, after, hnodes, hbefore⟩
    exact ⟨before, after, hnodes, beq_iff_eq.1 hid, fun k hk => by simpa using hbefore k hk⟩
  · rintro ⟨before, after, hnodes, hid, hbefore⟩
    exact ⟨beq_iff_eq.2 hid, before, after, hnodes, fun k hk => by simpa using hbefore k hk⟩

lemma edgeAt?_ofDocument (d : Document) (id handle : String) :
    (ofDocument d).edgeAt? id handle =
      d.edges.find? fun e => e.source == id && e.handle == some handle := by
  rw [edgeAt?, outgoing_ofDocument, Document.outgoing, List.find?_filter]
  simp only [Bool.decide_and, Bool.decide_eq_true]

/-! ## All answers -/

/-- The index answers every question as a search through the document would. -/
structure Represents (index : Index) (d : Document) : Prop where
  node : ∀ id, index.node? id = d.node? id
  /-- The node of an id is the first one that has it. -/
  first : ∀ id n, index.node? id = some n ↔
    ∃ before after, d.nodes = before ++ n :: after ∧ n.id = id ∧ ∀ k ∈ before, k.id ≠ id
  outgoing : ∀ id, index.outgoing id = d.edges.filter (·.source == id)
  incoming : ∀ id, index.incoming id = d.edges.filter (·.target == id)
  convergence : ∀ id, index.isConvergence id = true ↔ 2 ≤ d.edges.countP (·.target == id)
  /-- The ids at which edges come together are listed in order, each once. -/
  increasing : index.convergenceIds.Pairwise (· < ·)
  listed : ∀ id, id ∈ index.convergenceIds ↔ 2 ≤ d.edges.countP (·.target == id)
  /-- Ids count, not nodes. -/
  count : index.nodeCount = (d.nodes.map Node.id).toFinset.card
  edge : ∀ id handle, index.edgeAt? id handle =
    d.edges.find? fun e => e.source == id && e.handle == some handle

/-- The index of a document represents it. -/
theorem represents_ofDocument (d : Document) : (ofDocument d).Represents d := by
  have hlength : ∀ id, (d.incoming id).length = d.edges.countP (·.target == id) :=
    fun _ => List.countP_eq_length_filter.symm
  refine
    { node := node?_ofDocument d
      first := fun id n => ?_
      outgoing := outgoing_ofDocument d
      incoming := incoming_ofDocument d
      convergence := fun id => ?_
      increasing := IdSet.pairwise_sorted _
      listed := fun id => ?_
      count := nodeCount_ofDocument d
      edge := edgeAt?_ofDocument d }
  · rw [node?_ofDocument, node?_eq_some_iff]
  · rw [isConvergence_iff, hlength]
  · rw [mem_convergenceIds, hlength]

end Dialogue.Index
