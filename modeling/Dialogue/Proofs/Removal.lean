import Dialogue.Proofs.Jumps
import Dialogue.Proofs.Splicing
/-!
Taking nodes out of a document.

A document may hold nodes that leave nothing in its program: nodes that the compiler never comes to,
and frames and remarks, at which it only turns back.  Such nodes can be taken out while all edges
stay.  The edges that led to them then lead nowhere, and the compiler passes over a visit to nowhere
without a trace.  So the program loses the labels of these nodes and the jumps to them, and nothing
else (`Removable.compile_eq`).  Of nodes that the compiler never comes to there are none, and the
program stays the same (`compile_without`).

All other labels stay where they are: whether a node needs one depends on the edges that enter it
and on the jumps to it, and these are the same as before (`Removable.needsLabel_without`).
-/

namespace Dialogue

/-- Whether a command names node `id`: it is the label of the node or a jump to it. -/
def Command.names (id : String) (c : Command) : Bool :=
  c.isLabelOf id || c.isJumpTo id

@[simp] lemma Command.names_label (indent : UInt32) (x id : String) :
    (Command.label indent x).names id = decide (x = id) := by
  rw [Bool.eq_iff_iff]
  simp [names, isLabelOf, isJumpTo, label, labelName_injective.eq_iff]

@[simp] lemma Command.names_jumpToLabel (indent : UInt32) (x id : String) :
    (Command.jumpToLabel indent x).names id = decide (x = id) := by
  rw [Bool.eq_iff_iff]
  simp [names, isLabelOf, isJumpTo, jumpToLabel, labelName_injective.eq_iff]

lemma Command.names_of_opcode {c : Command} (hlabel : c.opcode ≠ .label)
    (hjump : c.opcode ≠ .jumpToLabel) (id : String) : c.names id = false := by
  simp [names, isLabelOf, isJumpTo, hlabel, hjump]

/-- The node that is visited. -/
def Item.visited? : Item → Option String
  | .enter x _ | .revisit x _ => some x
  | .emit _ _ => none

namespace Document

/-- The document without the nodes of `S`.  All edges stay. -/
def without (d : Document) (S : Finset Node) : Document :=
  { d with nodes := d.nodes.filter (· ∉ S) }

/-- Frames and remarks do nothing and lead nowhere, muted or not. -/
lemma jobs_of_visual {d : Document} {options : Options} {n : Node}
    (h : n.kind = .group ∨ n.kind = .comment) (indent : UInt32) :
    d.jobs options n indent = [] := by
  rw [jobs, layout, bypass?]
  rcases h with h | h <;> rw [h] <;> split <;> rfl

/-- Taking out other elements does not change what a search finds. -/
lemma find?_filter_of_pos {α : Type} {p q : α → Bool} {xs : List α} {a : α}
    (h : xs.find? q = some a) (ha : p a) : (xs.filter p).find? q = some a := by
  obtain ⟨hq, front, back, rfl, hfront⟩ := List.find?_eq_some_iff_append.1 h
  refine List.find?_eq_some_iff_append.2 ⟨hq, front.filter p, back.filter p, ?_, ?_⟩
  · rw [List.filter_append, List.filter_cons_of_pos ha]
  · intro x hx
    exact hfront x (List.mem_filter.1 hx).1

/-- The nodes `S` leave nothing in the program but labels and jumps: the dialogue does not begin at
one of them, and those that the compiler comes to are frames and remarks. -/
structure Removable (d : Document) (S : Finset Node) : Prop where
  ids : (d.nodes.map Node.id).Nodup
  subset : ∀ n ∈ S, n ∈ d.nodes
  start : ∀ n ∈ S, d.start? ≠ some n
  visual : ∀ n ∈ S, d.Reached n.id → n.kind = .group ∨ n.kind = .comment

namespace Removable

variable {d : Document} {S : Finset Node} {options : Options} (h : d.Removable S)

include h

lemma eq_of_id_eq {m n : Node} (hm : m ∈ d.nodes) (hn : n ∈ d.nodes) (hid : m.id = n.id) :
    m = n :=
  List.inj_on_of_nodup_map h.ids hm hn hid

/-- The ids of other nodes are not among those of the nodes that are taken out. -/
lemma id_ne {n : Node} (hn : n ∈ d.nodes) (hnot : n ∉ S) : ∀ m ∈ S, m.id ≠ n.id := by
  intro m hm hid
  rw [h.eq_of_id_eq (h.subset m hm) hn hid] at hm
  exact hnot hm

omit h in
lemma node?_without_of_not_mem {x : String} {n : Node} (hn : d.node? x = some n) (hnot : n ∉ S) :
    (d.without S).node? x = some n :=
  find?_filter_of_pos hn (by simpa using hnot)

omit h in
lemma node?_without_of_none {x : String} (hx : d.node? x = none) :
    (d.without S).node? x = none := by
  rw [node?, List.find?_eq_none] at hx ⊢
  intro n hn
  exact hx n (List.mem_filter.1 hn).1

lemma node?_without_of_mem {x : String} {n : Node} (hn : d.node? x = some n) (hmem : n ∈ S) :
    (d.without S).node? x = none := by
  rw [node?, List.find?_eq_none]
  intro m hm hid
  obtain ⟨hm, hnot⟩ := List.mem_filter.1 hm
  have hmn : m = n := h.eq_of_id_eq hm (h.subset n hmem) (by
    rw [id_of_node? hn]
    simpa using hid)
  simp [hmn, hmem] at hnot

lemma start?_without : (d.without S).start? = d.start? := by
  cases hstart : d.start? with
  | none =>
    rw [start?, List.find?_eq_none] at hstart ⊢
    intro n hn
    exact hstart n (List.mem_filter.1 hn).1
  | some start =>
    refine find?_filter_of_pos hstart ?_
    have hnot : start ∉ S := fun hmem => h.start start hmem hstart
    simpa using hnot

/-! ## What the compiler does -/

/-- By the recursion of `workOff`: without the nodes of `S` the compiler does the same as before,
except that it does not visit them. -/
theorem workOff_without (js : List Job) (u : IdSet) :
    ∀ u' : IdSet, d.StayReached js → (∀ x, (∀ n ∈ S, n.id ≠ x) → (x ∈ u' ↔ x ∈ u)) →
      (d.without S).workOff options js u' =
        (d.workOff options js u).filter fun i => ∀ n ∈ S, i.visited? ≠ some n.id := by
  fun_induction d.workOff options js u with
  | case1 u =>
    intro u' _ _
    rw [workOff]
    rfl
  | case2 owner c js u ih =>
    intro u' hjs hu
    rw [workOff, ih u' hjs.tail hu, List.filter_cons_of_pos (by simp [Item.visited?])]
  | case3 owner x indent js u hnone ih =>
    intro u' hjs hu
    rw [workOff_dead (node?_without_of_none hnone), ih u' hjs.tail hu]
  | case4 owner x indent js u n hn hmem ih =>
    intro u' hjs hu
    obtain rfl := id_of_node? hn
    have hreached : d.Reached n.id := hjs owner n.id indent List.mem_cons_self (by rw [hn]; rfl)
    by_cases hS : n ∈ S
    · -- the node does nothing, so the visit may as well come to nothing
      have hu' : ∀ y, (∀ m ∈ S, m.id ≠ y) → (y ∈ u' ↔ y ∈ u.erase n.id) := by
        intro y hy
        rw [hu y hy, Std.HashSet.mem_erase]
        simp [hy n hS]
      rw [jobs_of_visual (h.visual n hS hreached), List.nil_append] at ih ⊢
      rw [workOff_dead (h.node?_without_of_mem hn hS), ih u' hjs.tail hu',
        List.filter_cons_of_neg]
      simpa [Item.visited?] using ⟨n, hS, rfl⟩
    · have hid := h.id_ne (mem_nodes_of_node? hn) hS
      have hu' : ∀ y, (∀ m ∈ S, m.id ≠ y) → (y ∈ u'.erase n.id ↔ y ∈ u.erase n.id) := by
        intro y hy
        rw [Std.HashSet.mem_erase, Std.HashSet.mem_erase, hu y hy]
      have hjobs : (d.without S).jobs options n indent = d.jobs options n indent := by
        have hlayout : (d.without S).layout options n = d.layout options n :=
          layout_congr options rfl
        rw [jobs, jobs, hlayout]
      rw [workOff_enter (node?_without_of_not_mem hn hS) ((hu n.id hid).2 hmem), hjobs,
        ih _ (hjs.tail.enter hn hreached indent) hu', List.filter_cons_of_pos]
      simpa [Item.visited?] using fun m hm => (hid m hm).symm
  | case5 owner x indent js u n hn hmem ih =>
    intro u' hjs hu
    obtain rfl := id_of_node? hn
    by_cases hS : n ∈ S
    · rw [workOff_dead (h.node?_without_of_mem hn hS), ih u' hjs.tail hu, List.filter_cons_of_neg]
      simpa [Item.visited?] using ⟨n, hS, rfl⟩
    · have hid := h.id_ne (mem_nodes_of_node? hn) hS
      rw [workOff_jump (node?_without_of_not_mem hn hS) (mt (hu n.id hid).1 hmem),
        ih u' hjs.tail hu, List.filter_cons_of_pos]
      simpa [Item.visited?] using fun m hm => (hid m hm).symm

lemma items_without :
    (d.without S).items options =
      (d.items options).filter fun i => ∀ n ∈ S, i.visited? ≠ some n.id := by
  have hfirst : (d.without S).firstJobs = d.firstJobs := by
    rw [firstJobs, firstJobs, entrance?, entrance?, h.start?_without]
    rfl
  have hids : ∀ x, (∀ n ∈ S, n.id ≠ x) → (x ∈ (d.without S).allIds ↔ x ∈ d.allIds) := by
    intro x hx
    rw [mem_allIds, mem_allIds]
    cases hn : d.node? x with
    | none => rw [node?_without_of_none hn]
    | some n =>
      have hnot : n ∉ S := fun hmem => hx n hmem (id_of_node? hn)
      rw [node?_without_of_not_mem hn hnot]
  rw [items_eq_workOff, items_eq_workOff, hfirst,
    h.workOff_without _ _ _ stayReached_firstJobs hids]

/-! ## The program -/

/-- The other nodes need a label if they did before. -/
lemma needsLabel_without {x : String} (hx : ∀ n ∈ S, n.id ≠ x) :
    (d.without S).needsLabel x = d.needsLabel x := by
  have hjumps : x ∈ (d.without S).trunk.jumps ↔ x ∈ d.trunk.jumps := by
    rw [← filterMap_revisited?_items {}, ← filterMap_revisited?_items {}, h.items_without,
      List.mem_filterMap, List.mem_filterMap]
    constructor
    · rintro ⟨i, hi, heq⟩
      exact ⟨i, (List.mem_filter.1 hi).1, heq⟩
    · rintro ⟨i, hi, heq⟩
      refine ⟨i, List.mem_filter.2 ⟨hi, ?_⟩, heq⟩
      cases i with
      | revisit y k =>
        obtain rfl : y = x := Option.some.inj heq
        simpa [Item.visited?] using fun n hn => (hx n hn).symm
      | enter y k => cases heq
      | emit owner c => cases heq
  exact needsLabel_congr rfl hjumps

/-- Of the commands of one thing that the compiler does, those that name a node of `S` are lost. -/
lemma filter_commands {i : Item} (hi : i ∈ d.items options) :
    (i.commands d.needsLabel).filter (fun c => ∀ n ∈ S, c.names n.id = false) =
      if ∀ n ∈ S, i.visited? ≠ some n.id then i.commands (d.without S).needsLabel else [] := by
  have hkept : ∀ x, (∀ n ∈ S, some x ≠ some n.id) → ∀ n ∈ S, n.id ≠ x :=
    fun x hx n hn hid => hx n hn (congrArg some hid.symm)
  cases i with
  | enter x k =>
    rw [Item.commands, Item.visited?]
    split_ifs with hneeds hx hx
    · rw [Item.commands, h.needsLabel_without (hkept x hx), if_pos hneeds]
      simpa [List.filter_cons] using hx
    · simpa [List.filter_cons] using hx
    · rw [Item.commands, h.needsLabel_without (hkept x hx), if_neg hneeds]
      rfl
    · rfl
  | revisit x k =>
    rw [Item.commands, Item.visited?]
    split_ifs with hx
    · simpa [List.filter_cons, Item.commands] using hx
    · simpa [List.filter_cons] using hx
  | emit owner c =>
    obtain ⟨hlabel, hjump⟩ := opcode_of_emit hi
    simp [Item.commands, Item.visited?, Command.names_of_opcode hlabel hjump]

lemma flatMap_commands {items : List Item} (hitems : ∀ i ∈ items, i ∈ d.items options) :
    (items.filter fun i => ∀ n ∈ S, i.visited? ≠ some n.id).flatMap
        (Item.commands (d.without S).needsLabel) =
      (items.flatMap (Item.commands d.needsLabel)).filter
        fun c => ∀ n ∈ S, c.names n.id = false := by
  induction items with
  | nil => rfl
  | cons i items ih =>
    have ih := ih fun i' hi' => hitems i' (List.mem_cons_of_mem _ hi')
    rw [List.flatMap_cons, List.filter_append, h.filter_commands (hitems i List.mem_cons_self),
      ← ih, List.filter_cons]
    simp only [decide_eq_true_eq]
    split
    · rfl
    · rfl

/-- The program loses the labels of the nodes that are taken out and the jumps to them. -/
theorem compile_eq :
    (d.without S).compile options =
      (d.compile options).filter fun c => ∀ n ∈ S, c.names n.id = false := by
  rw [compile_eq_ite, compile_eq_ite, h.start?_without]
  split
  · rw [List.filter_append, h.items_without, h.flatMap_commands fun i hi => hi]
    congr 1
    simp [Command.names_of_opcode, Command.stop]
  · rfl

end Removable

/-- In a document without repeated ids, nodes that the compiler does not come to can be taken out
without a change to the program, the node where the dialogue begins apart.  If frames and remarks
are taken out, then the program loses their labels and the jumps to them, and nothing else. -/
theorem compile_without (d : Document) (hids : (d.nodes.map Node.id).Nodup) (options : Options) :
    (∀ S : Finset Node,
      (∀ n ∈ S, n ∈ d.nodes ∧ d.start? ≠ some n ∧
        n.id ∉ (d.finished options).entries.toList.map Entry.id) →
      (d.without S).compile options = d.compile options) ∧
    ∀ S : Finset Node,
      (∀ n ∈ S, n ∈ d.nodes ∧ (n.kind = .group ∨ n.kind = .comment)) →
      (d.without S).compile options =
        (d.compile options).filter fun c => ∀ n ∈ S, c.names n.id = false := by
  constructor
  · intro S hS
    have hunreached : ∀ n ∈ S, n.id ∉ d.trunk.enteredIds := by
      intro n hn
      rw [← @map_id_entries d options]
      exact (hS n hn).2.2
    have h : d.Removable S :=
      { ids := hids
        subset := fun n hn => (hS n hn).1
        start := fun n hn => (hS n hn).2.1
        visual := fun n hn hreached => absurd (mem_enteredIds_iff.2 hreached) (hunreached n hn) }
    rw [h.compile_eq, List.filter_eq_self]
    intro c hc
    -- labels and jumps name nodes that are entered
    simp only [decide_eq_true_eq]
    intro n hn
    by_contra hnames
    rw [Bool.not_eq_false, Command.names, Bool.or_eq_true] at hnames
    refine hunreached n hn ?_
    rcases hnames with hlabel | hjump
    · exact (exists_isLabelOf_iff.1 ⟨c, hc, hlabel⟩).1
    · exact mem_trunk_of_mem_jumps (exists_isJumpTo_iff.1 ⟨c, hc, hjump⟩)
  · intro S hS
    have h : d.Removable S :=
      { ids := hids
        subset := fun n hn => (hS n hn).1
        start := fun n hn hstart => by
          have hisStart : n.isStart = true := List.find?_some hstart
          rw [Node.isStart] at hisStart
          rcases (hS n hn).2 with hkind | hkind <;> simp [hkind] at hisStart
        visual := fun n hn _ => (hS n hn).2 }
    exact h.compile_eq

/-- A menu whose choices both lead to a remark; another remark stands in a frame that cancelling
leads to.  Nothing leads to the attic and to the second start. -/
def noticeBoard : Document where
  nodes := [{ id := "start", kind := .start },
    { id := "ask", kind := .menu
        { choices := [{ id := "a", text := "Read" }, { id := "b", text := "Leave" }]
          cancel := .branch } },
    { id := "note", kind := .comment },
    { id := "frame", kind := .group },
    { id := "attic", kind := .action [.commonEvent 5] },
    { id := "other", kind := .start }]
  edges := [{ id := "e0", source := "start", target := "ask" },
    { id := "e1", source := "ask", target := "note", handle := some "choice-0" },
    { id := "e2", source := "ask", target := "note", handle := some "choice-1" },
    { id := "e3", source := "ask", target := "frame", handle := some "cancel" },
    { id := "e4", source := "attic", target := "frame" },
    { id := "e5", source := "other", target := "ask" }]

theorem compile_noticeBoard_without :
    (noticeBoard.without {noticeBoard.nodes[4], noticeBoard.nodes[5]}).compile {} =
        noticeBoard.compile {} ∧
      (noticeBoard.without {noticeBoard.nodes[2], noticeBoard.nodes[3]}).compile {} =
        (noticeBoard.compile {}).filter fun c =>
          c.names "note" = false ∧ c.names "frame" = false := by
  have hids : (noticeBoard.nodes.map Node.id).Nodup := by decide
  obtain ⟨hunreached, hvisual⟩ := compile_without noticeBoard hids {}
  have hnever : ∀ id, noticeBoard.incoming id = [] →
      id ∉ (noticeBoard.finished {}).entries.toList.map Entry.id := by
    intro id hid hmem
    rw [map_id_entries, mem_enteredIds_iff] at hmem
    exact hmem.incoming_ne_nil hid
  refine ⟨hunreached _ ?_, ?_⟩
  · simp only [Finset.mem_insert, Finset.mem_singleton, forall_eq_or_imp, forall_eq]
    exact ⟨⟨by decide, by decide, hnever _ (by decide)⟩, by decide, by decide,
      hnever _ (by decide)⟩
  · rw [hvisual]
    · simp [noticeBoard]
    · simp only [Finset.mem_insert, Finset.mem_singleton, forall_eq_or_imp, forall_eq]
      exact ⟨⟨by decide, .inr rfl⟩, by decide, .inl rfl⟩

end Document

end Dialogue
