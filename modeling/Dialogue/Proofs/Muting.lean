import Mathlib.Data.Finset.Card
import Mathlib.Data.List.Forall2
import Dialogue.Proofs.Alike
/-!
Muting is collapsing onto an edge.

A muted node does nothing and passes the dialogue on along one of its edges: a condition along the
edge for "true", a menu along the edge of its first choice, and any of them along its first edge if
there is no such edge.  The same is drawn without muting by an action node that does nothing and
whose first edge is that edge.  The compiler cannot tell the two drawings apart
(`compile_eq_of_collapses`), whatever enters the node, and also if muted nodes lead to muted nodes
or in circles: both nodes have the same layout, so the two documents are alike.
-/

namespace Dialogue

/-! ## Moving an edge to the front -/

section MoveFront

variable {p q r : Edge → Bool}

/-- The first edge with a property is put before all others. -/
def moveFront (p : Edge → Bool) (edges : List Edge) : List Edge :=
  (edges.find? p).toList ++ edges.eraseP p

lemma moveFront_perm (p : Edge → Bool) (edges : List Edge) : (moveFront p edges).Perm edges := by
  induction edges with
  | nil => exact .refl _
  | cons e edges ih =>
    unfold moveFront at ih ⊢
    cases hp : p e with
    | true => simp [hp]
    | false =>
      simp only [List.find?_cons, List.eraseP_cons, hp, cond_false]
      exact List.perm_middle.trans (ih.cons e)

lemma moveFront_of_forall_not {edges : List Edge} (h : ∀ e ∈ edges, p e = false) :
    moveFront p edges = edges := by
  rw [moveFront, List.find?_eq_none.2 (by simpa using h),
    List.eraseP_of_forall_not (by simpa using h)]
  rfl

lemma head?_moveFront (p : Edge → Bool) (edges : List Edge) :
    (moveFront p edges).head? = (edges.find? p).or edges.head? := by
  cases hfind : edges.find? p with
  | none =>
    have hnot : ∀ e ∈ edges, p e = false := by simpa using hfind
    rw [moveFront_of_forall_not hnot, Option.none_or]
  | some e => simp [moveFront, hfind]

lemma filter_eraseP (p q : Edge → Bool) (edges : List Edge) :
    (edges.eraseP fun e => q e && p e).filter q = (edges.filter q).eraseP p := by
  induction edges with
  | nil => rfl
  | cons e edges ih => cases hq : q e <;> cases hp : p e <;> simp [hq, hp, ih]

/-- Among the edges with the property `q`, one of them is moved to the front. -/
lemma filter_moveFront (p q : Edge → Bool) (edges : List Edge) :
    (moveFront (fun e => q e && p e) edges).filter q = moveFront p (edges.filter q) := by
  have hfilter : (edges.find? fun e => q e && p e).toList.filter q =
      (edges.find? fun e => q e && p e).toList := by
    rw [List.filter_eq_self]
    intro e he
    have hp := List.find?_some (Option.mem_toList.1 he)
    exact (Bool.and_eq_true_iff.1 hp).1
  rw [moveFront, moveFront, List.filter_append, filter_eraseP, hfilter, List.find?_filter]
  simp only [Bool.decide_and, Bool.decide_eq_true]

/-- If the edge that is moved does not have the property `r`, those that have it stay as they
are. -/
lemma filter_moveFront_of_disjoint (h : ∀ e, p e = true → r e = false) (edges : List Edge) :
    (moveFront p edges).filter r = edges.filter r := by
  have hmoved : (edges.find? p).toList.filter r = [] := by
    rw [List.filter_eq_nil_iff]
    intro e he
    simp [h e (List.find?_some (Option.mem_toList.1 he))]
  have hrest : (edges.eraseP p).filter r = edges.filter r := by
    clear hmoved
    induction edges with
    | nil => rfl
    | cons e edges ih =>
      cases hp : p e with
      | true => simp [hp, h e hp]
      | false => simp [hp, ih, List.filter_cons]
  rw [moveFront, List.filter_append, hmoved, hrest, List.nil_append]

end MoveFront

/-! ## Collapsing -/

/-- Whether muting takes a node of that kind out of the way. -/
def NodeKind.isPassable : NodeKind → Bool
  | action _ | condition _ | menu _ | finish => true
  | start | group | comment => false

/-- Whether an edge of a muted node of that kind comes before its other edges. -/
def NodeKind.isBypass (kind : NodeKind) (e : Edge) : Bool :=
  match kind with
  | condition _ => e.handle == some trueHandle
  | menu _ => e.handle == some (choiceHandle 0)
  | start | action _ | finish | group | comment => false

lemma Node.isStart_of_isPassable {n : Node} (h : n.kind.isPassable) : n.isStart = false := by
  rw [isStart]
  split
  · next heq => simp [heq, NodeKind.isPassable] at h
  · rfl

/-- What stands for a node if the nodes of `S` are collapsed: for one of these, an action node
without actions that is not muted. -/
def Node.Becomes (S : Finset Node) (n n' : Node) : Prop :=
  if n ∈ S then n'.id = n.id ∧ n'.muted = false ∧ n'.kind = .action [] else n' = n

namespace Document

/-- In `d'` the nodes `S` of `d` are collapsed: each of them has the edge along which it was passed
in front of its other edges.  Nothing is said about how edges of different nodes follow each
other. -/
structure Collapses (S : Finset Node) (d d' : Document) : Prop where
  nodes : List.Forall₂ (Node.Becomes S) d.nodes d'.nodes
  edges : d'.edges.Perm d.edges
  bypass : ∀ n ∈ S, d'.outgoing n.id = moveFront n.kind.isBypass (d.outgoing n.id)
  others : ∀ id, (∀ n ∈ S, n.id ≠ id) → d'.outgoing id = d.outgoing id

/-! ### A document that collapses the nodes -/

/-- The edges with those along which the muted nodes are passed in front. -/
def bypassesFirst (ns : List Node) (edges : List Edge) : List Edge :=
  ns.foldr (fun n => moveFront fun e => e.source == n.id && n.kind.isBypass e) edges

lemma bypassesFirst_perm (ns : List Node) (edges : List Edge) :
    (bypassesFirst ns edges).Perm edges := by
  induction ns with
  | nil => exact .refl _
  | cons n ns ih => exact (moveFront_perm _ _).trans ih

lemma filter_bypassesFirst_of_ne {ns : List Node} {id : String} (h : ∀ n ∈ ns, n.id ≠ id)
    (edges : List Edge) :
    (bypassesFirst ns edges).filter (·.source == id) = edges.filter (·.source == id) := by
  induction ns with
  | nil => rfl
  | cons n ns ih =>
    have hne : n.id ≠ id := h n List.mem_cons_self
    rw [bypassesFirst, List.foldr_cons, filter_moveFront_of_disjoint]
    · exact ih fun m hm => h m (List.mem_cons_of_mem _ hm)
    · intro e he
      simp only [Bool.and_eq_true, beq_iff_eq] at he
      simpa [he.1] using hne

lemma filter_bypassesFirst {ns : List Node} (hids : (ns.map Node.id).Nodup) {n : Node}
    (hn : n ∈ ns) (edges : List Edge) :
    (bypassesFirst ns edges).filter (·.source == n.id) =
      moveFront n.kind.isBypass (edges.filter (·.source == n.id)) := by
  induction ns with
  | nil => cases hn
  | cons m ns ih =>
    obtain ⟨hm, hids⟩ := List.nodup_cons.1 hids
    have hne : ∀ n ∈ ns, n.id ≠ m.id := by
      rintro n hn heq
      exact hm (heq ▸ List.mem_map_of_mem hn)
    rw [bypassesFirst, List.foldr_cons]
    rcases List.mem_cons.1 hn with rfl | hn
    · rw [filter_moveFront]
      exact congrArg _ (filter_bypassesFirst_of_ne hne edges)
    · rw [filter_moveFront_of_disjoint]
      · exact ih hids hn
      · intro e he
        simp only [Bool.and_eq_true, beq_iff_eq] at he
        simpa [he.1] using (hne n hn).symm

/-- Nodes can always be collapsed. -/
lemma exists_collapses {d : Document} (hids : (d.nodes.map Node.id).Nodup) {S : Finset Node}
    (hS : ∀ n ∈ S, n ∈ d.nodes) : ∃ d', d.Collapses S d' := by
  let quiet (n : Node) : Node := { id := n.id, label := n.label, kind := .action [] }
  let ns := d.nodes.filter (· ∈ S)
  have hns : ∀ n, n ∈ ns ↔ n ∈ S := by
    intro n
    simpa [ns] using hS n
  have hnodup : (ns.map Node.id).Nodup := hids.sublist (List.filter_sublist.map _)
  refine ⟨⟨d.nodes.map fun n => if n ∈ S then quiet n else n, bypassesFirst ns d.edges⟩,
    ?_, bypassesFirst_perm _ _, ?_, ?_⟩
  · rw [List.forall₂_map_right_iff, List.forall₂_same]
    intro n _
    rw [Node.Becomes]
    split
    · exact ⟨rfl, rfl, rfl⟩
    · rfl
  · intro n hn
    exact filter_bypassesFirst hnodup ((hns n).2 hn) d.edges
  · intro id hid
    exact filter_bypassesFirst_of_ne (fun n hn => hid n ((hns n).1 hn)) d.edges

/-! ### The layouts of a collapsed document -/

/-- The layout of a node depends on the edges that leave it. -/
lemma layout_congr {d d' : Document} (options : Options) {n : Node}
    (h : d.outgoing n.id = d'.outgoing n.id) : d.layout options n = d'.layout options n := by
  refine layout_eq_of_targets options ?_ fun handle => ?_
  · rw [firstTarget?, firstTarget?, h]
  · rw [targetAt?, targetAt?, h]

/-- A muted node is passed along the edge that collapsing puts in front. -/
lemma bypass?_eq {d : Document} {n : Node} (h : n.kind.isPassable) :
    d.bypass? n = (moveFront n.kind.isBypass (d.outgoing n.id)).head?.map Edge.target := by
  cases hkind : n.kind with
  | condition condition =>
    rw [bypass?, hkind, head?_moveFront]
    exact Option.map_or.symm
  | menu m =>
    rw [bypass?, hkind, head?_moveFront]
    exact Option.map_or.symm
  | action actions =>
    rw [bypass?, hkind, @moveFront_of_forall_not (NodeKind.isBypass _) _ fun _ _ => rfl]
    rfl
  | finish =>
    rw [bypass?, hkind, @moveFront_of_forall_not (NodeKind.isBypass _) _ fun _ _ => rfl]
    rfl
  | start | group | comment => simp [hkind, NodeKind.isPassable] at h

lemma rel_find? {α β : Type} {R : α → β → Prop} {p : α → Bool} {q : β → Bool}
    (hpq : ∀ a b, R a b → p a = q b) {xs : List α} {ys : List β} (h : List.Forall₂ R xs ys) :
    Option.Rel R (xs.find? p) (ys.find? q) := by
  induction h with
  | nil => exact .none
  | @cons a b xs ys hab _ ih =>
    rw [List.find?_cons, List.find?_cons, ← hpq a b hab]
    cases p a with
    | true => exact .some hab
    | false => exact ih

namespace Collapses

variable {S : Finset Node} {d d' : Document} (h : d.Collapses S d')

include h

lemma start?_eq (hS : ∀ n ∈ S, n.kind.isPassable) : d'.start? = d.start? := by
  have hrel : Option.Rel (Node.Becomes S) d.start? d'.start? := by
    refine rel_find? (fun n n' hn => ?_) h.nodes
    rw [Node.Becomes] at hn
    split at hn
    · next hmem => rw [Node.isStart_of_isPassable (hS n hmem), Node.isStart, hn.2.2]
    · rw [hn]
  generalize d'.start? = found at hrel ⊢
  cases hd : d.start? with
  | none =>
    rw [hd] at hrel
    cases hrel
    rfl
  | some n =>
    rw [hd] at hrel
    obtain ⟨hn⟩ := hrel
    have hnot : n ∉ S := by
      intro hmem
      have hstart : n.isStart = true := List.find?_some hd
      rw [Node.isStart_of_isPassable (hS n hmem)] at hstart
      cases hstart
    rw [Node.Becomes, if_neg hnot] at hn
    rw [hn]

/-- The edges that leave a node which is not collapsed stay as they are. -/
lemma outgoing_eq (hids : (d.nodes.map Node.id).Nodup) (hS : ∀ n ∈ S, n ∈ d.nodes) {n : Node}
    (hn : n ∈ d.nodes) (hnot : n ∉ S) : d'.outgoing n.id = d.outgoing n.id := by
  refine h.others n.id fun m hm heq => hnot ?_
  obtain rfl : m = n := List.inj_on_of_nodup_map hids (hS m hm) hn heq
  exact hm

lemma layout_eq (hids : (d.nodes.map Node.id).Nodup)
    (hS : ∀ n ∈ S, n ∈ d.nodes ∧ n.muted ∧ n.kind.isPassable) (options : Options) {n n' : Node}
    (hn : n ∈ d.nodes) (hn' : n.Becomes S n') : d.layout options n = d'.layout options n' := by
  rw [Node.Becomes] at hn'
  split at hn'
  · next hmem =>
    -- both nodes pass the dialogue on, along the same edge
    obtain ⟨-, hmuted, hkind⟩ := hS n hmem
    obtain ⟨hid, hmuted', hkind'⟩ := hn'
    funext indent
    rw [layout, layout, hmuted, Node.isStart_of_isPassable hkind, hmuted', hkind',
      bypass?_eq hkind, ← h.bypass n hmem, ← hid]
    rfl
  · next hnot =>
    subst hn'
    exact layout_congr options (h.outgoing_eq hids (fun m hm => (hS m hm).1) hn hnot).symm

/-- The compiler sees no difference between a document and one in which muted nodes are
collapsed. -/
theorem alike (hids : (d.nodes.map Node.id).Nodup)
    (hS : ∀ n ∈ S, n ∈ d.nodes ∧ n.muted ∧ n.kind.isPassable) (options : Options) :
    Alike options d d' where
  start := by rw [h.start?_eq fun n hn => (hS n hn).2.2]
  entrance := by
    rw [entrance?, entrance?, h.start?_eq fun n hn => (hS n hn).2.2]
    refine Option.bind_congr fun start hstart => ?_
    have hnot : start ∉ S := by
      intro hmem
      have hisStart : start.isStart = true := List.find?_some hstart
      rw [Node.isStart_of_isPassable (hS start hmem).2.2] at hisStart
      cases hisStart
    rw [firstTarget?, firstTarget?,
      h.outgoing_eq hids (fun m hm => (hS m hm).1) (List.mem_of_find?_eq_some hstart) hnot]
  node id := by
    have hrel : Option.Rel (Node.Becomes S) (d.node? id) (d'.node? id) := by
      refine rel_find? (fun n n' hn => ?_) h.nodes
      rw [Node.Becomes] at hn
      split at hn
      · rw [hn.1]
      · rw [hn]
    generalize d'.node? id = found at hrel ⊢
    cases hd : d.node? id with
    | none =>
      rw [hd] at hrel
      cases hrel
      exact .none
    | some n =>
      rw [hd] at hrel
      obtain ⟨hn⟩ := hrel
      exact .some (h.layout_eq hids hS options (mem_nodes_of_node? hd) hn)
  incoming id := (h.edges.filter _).length_eq.symm

end Collapses

/-- Muting is collapsing: if each of some muted nodes is replaced by an action node without actions
whose first edge is the one along which the muted node was passed, then the program stays the
same. -/
theorem compile_eq_of_collapses (d : Document) (hids : (d.nodes.map Node.id).Nodup)
    (S : Finset Node) (hS : ∀ n ∈ S, n ∈ d.nodes ∧ n.muted ∧ n.kind.isPassable) :
    (∃ d', d.Collapses S d') ∧
      ∀ d', d.Collapses S d' → ∀ options, d.compile options = d'.compile options :=
  ⟨exists_collapses hids fun n hn => (hS n hn).1,
    fun _ h options => (h.alike hids hS options).compile_eq⟩

/-- A muted condition that leads to itself, and along "true" to a muted menu that leads back to
it. -/
def detour : Document where
  nodes := [{ id := "start", kind := .start },
    { id := "if", muted := true, kind := .condition (.switch 1 true) },
    { id := "ask", muted := true, kind := .menu { choices := [{ id := "a", text := "Buy" }] } },
    { id := "pay", kind := .action [.commonEvent 3] }]
  edges := [{ id := "e0", source := "start", target := "if" },
    { id := "e1", source := "if", target := "if", handle := some "false" },
    { id := "e2", source := "ask", target := "pay", handle := some "cancel" },
    { id := "e3", source := "if", target := "ask", handle := some "true" },
    { id := "e4", source := "ask", target := "if", handle := some "choice-0" }]

/-- The same dialogue without muted nodes. -/
def detourCollapsed : Document where
  nodes := [{ id := "start", kind := .start },
    { id := "if", kind := .action [] },
    { id := "ask", kind := .action [] },
    { id := "pay", kind := .action [.commonEvent 3] }]
  edges := [{ id := "e0", source := "start", target := "if" },
    { id := "e3", source := "if", target := "ask", handle := some "true" },
    { id := "e4", source := "ask", target := "if", handle := some "choice-0" },
    { id := "e1", source := "if", target := "if", handle := some "false" },
    { id := "e2", source := "ask", target := "pay", handle := some "cancel" }]

theorem compile_detour_eq :
    (detour.nodes.map Node.id).Nodup ∧
      ∃ S : Finset Node, S.card = 2 ∧
        (∀ n ∈ S, n ∈ detour.nodes ∧ n.muted ∧ n.kind.isPassable) ∧
        detour.Collapses S detourCollapsed ∧ detour.compile {} = detourCollapsed.compile {} := by
  let S : Finset Node := (detour.nodes.filter (·.muted)).toFinset
  have hids : (detour.nodes.map Node.id).Nodup := by decide
  have hS : ∀ n ∈ S, n ∈ detour.nodes ∧ n.muted ∧ n.kind.isPassable := by decide
  have hothers : ∀ id, (∀ n ∈ S, n.id ≠ id) →
      detourCollapsed.outgoing id = detour.outgoing id := by
    intro id hid
    have hif : "if" ≠ id := hid (detour.nodes[1]) (by decide)
    have hask : "ask" ≠ id := hid (detour.nodes[2]) (by decide)
    simp [outgoing, detour, detourCollapsed, List.filter_cons, hif, hask]
  have hnodes : List.Forall₂ (Node.Becomes S) detour.nodes detourCollapsed.nodes := by
    refine .cons rfl (.cons ?_ (.cons ?_ (.cons rfl .nil))) <;> exact ⟨rfl, rfl, rfl⟩
  have hcollapses : detour.Collapses S detourCollapsed :=
    ⟨hnodes, by decide, by decide, hothers⟩
  exact ⟨hids, S, by decide, hS, hcollapses,
    (compile_eq_of_collapses detour hids S hS).2 detourCollapsed hcollapses {}⟩

end Document

end Dialogue
