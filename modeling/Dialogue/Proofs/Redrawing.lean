import Dialogue.Proofs.Alike
/-!
Drawing a dialogue anew.

A document says more than the dialogue that it stands for.  Titles of nodes and names of edges and
choices are for the people who draw it, and so is the order of the nodes, and that of edges which
leave different nodes.  If two documents differ in nothing else, then they have the same program
(`compile_eq_of_redraws`), provided that no two nodes have the same id and the dialogue begins at
one node only: of several such nodes the first one counts.
-/

namespace Dialogue

/-! ## Names -/

/-- A choice without its name. -/
def Choice.unnamed (c : Choice) : Choice :=
  { c with id := "" }

/-- A menu without the names of its choices. -/
def Menu.unnamed (m : Menu) : Menu :=
  { m with choices := m.choices.map Choice.unnamed }

/-- What a node is for, without names of choices. -/
def NodeKind.unnamed : NodeKind → NodeKind
  | menu m => menu m.unnamed
  | kind => kind

/-- A node without its title and without names of choices. -/
def Node.unnamed (n : Node) : Node :=
  { n with label := "", kind := n.kind.unnamed }

/-- An edge without its name. -/
def Edge.unnamed (e : Edge) : Edge :=
  { e with id := "" }

lemma Menu.isDynamic_unnamed (m : Menu) : m.unnamed.isDynamic = m.isDynamic := by
  rw [isDynamic, isDynamic, unnamed, List.any_map]
  rfl

lemma Menu.script_unnamed (m : Menu) (disabledMark : String) :
    m.unnamed.script disabledMark = m.script disabledMark := by
  have hoffers : m.unnamed.choices.mapIdx (Choice.offer disabledMark) =
      m.choices.mapIdx (Choice.offer disabledMark) := by
    apply List.ext_getElem <;> simp [unnamed, Choice.unnamed, Choice.offer]
  rw [script, script, scriptLines, scriptLines, hoffers]
  rfl

lemma Menu.routes_unnamed (m : Menu) : m.unnamed.routes = m.routes := by
  simp [routes, unnamed]

lemma Menu.window_unnamed (m : Menu) (indent : UInt32) :
    m.unnamed.window indent = m.window indent := by
  simp only [window, unnamed, List.map_map, List.length_map]
  rfl

@[simp] lemma Node.isStart_unnamed (n : Node) : n.unnamed.isStart = n.isStart := by
  obtain ⟨id, label, muted, kind⟩ := n
  cases kind <;> rfl

namespace Document

variable {d d' : Document} {options : Options}

lemma choiceSlots_unnamed (id : String) (indent : UInt32) (i : Nat) (choices : List Choice) :
    d.choiceSlots id indent i (choices.map Choice.unnamed) = d.choiceSlots id indent i choices := by
  induction choices generalizing i with
  | nil => rfl
  | cons c cs ih => rw [List.map_cons, choiceSlots, choiceSlots, ih]; rfl

lemma bypass?_unnamed (n : Node) : d.bypass? n.unnamed = d.bypass? n := by
  obtain ⟨id, label, muted, kind⟩ := n
  cases kind <;> rfl

/-- The layout of a node does not depend on names. -/
lemma layout_unnamed (n : Node) (indent : UInt32) :
    d.layout options n.unnamed indent = d.layout options n indent := by
  rw [layout, layout, bypass?_unnamed, Node.isStart_unnamed]
  obtain ⟨id, label, muted, kind⟩ := n
  refine congrArg (ite _ _) ?_
  cases kind with
  | menu m =>
    have hslots : d.choiceSlots id indent 0 m.unnamed.choices =
        d.choiceSlots id indent 0 m.choices := choiceSlots_unnamed id indent 0 m.choices
    simp only [Node.unnamed, NodeKind.unnamed, Menu.isDynamic_unnamed, dynamicMenuLayout,
      staticMenuLayout, Menu.script_unnamed, Menu.routes_unnamed, Menu.window_unnamed, hslots]
    rfl
  | start | action _ | condition _ | finish | group | comment => rfl

/-- The document without names. -/
def unnamed (d : Document) : Document where
  nodes := d.nodes.map Node.unnamed
  edges := d.edges.map Edge.unnamed

lemma outgoing_unnamed (id : String) :
    d.unnamed.outgoing id = (d.outgoing id).map Edge.unnamed := by
  rw [outgoing, outgoing, unnamed, List.filter_map]
  rfl

lemma incoming_unnamed (id : String) :
    d.unnamed.incoming id = (d.incoming id).map Edge.unnamed := by
  rw [incoming, incoming, unnamed, List.filter_map]
  rfl

@[simp] lemma firstTarget?_unnamed (id : String) :
    d.unnamed.firstTarget? id = d.firstTarget? id := by
  rw [firstTarget?, firstTarget?, outgoing_unnamed, List.head?_map, Option.map_map]
  rfl

@[simp] lemma targetAt?_unnamed (id handle : String) :
    d.unnamed.targetAt? id handle = d.targetAt? id handle := by
  rw [targetAt?, targetAt?, outgoing_unnamed, List.find?_map, Option.map_map]
  rfl

lemma start?_unnamed : d.unnamed.start? = d.start?.map Node.unnamed := by
  rw [start?, start?, unnamed, List.find?_map]
  simp only [Function.comp_def, Node.isStart_unnamed]

lemma node?_unnamed (id : String) : d.unnamed.node? id = (d.node? id).map Node.unnamed := by
  rw [node?, node?, unnamed, List.find?_map]
  rfl

/-- The compiler does not look at names. -/
lemma alike_unnamed (d : Document) (options : Options) : Alike options d d.unnamed where
  start := by rw [start?_unnamed, Option.isSome_map]
  entrance := by
    rw [entrance?, entrance?, start?_unnamed, Option.bind_map]
    simp only [Function.comp_def, firstTarget?_unnamed]
    rfl
  node id := by
    rw [node?_unnamed]
    cases d.node? id with
    | none => exact .none
    | some n =>
      refine .some ?_
      have hlayout := @layout_eq_of_targets d d.unnamed options n (by simp) (by simp)
      ext1 indent
      rw [layout_unnamed, hlayout]
  incoming id := by rw [incoming_unnamed, List.length_map]

/-! ## Order -/

lemma find?_eq_of_perm {α : Type} {p : α → Bool} {xs ys : List α} (h : xs.Perm ys)
    (hone : xs.countP p ≤ 1) : xs.find? p = ys.find? p := by
  have hfilter := h.filter p
  rw [List.countP_eq_length_filter] at hone
  rw [← List.head?_filter, ← List.head?_filter]
  rcases hxs : xs.filter p with _ | ⟨x, _ | ⟨x', rest⟩⟩
  · rw [hxs] at hfilter
    rw [hfilter.symm.eq_nil]
  · rw [hxs] at hfilter
    rw [List.perm_singleton.1 hfilter.symm]
  · rw [hxs] at hone
    simp at hone

/-- The order of the nodes does not matter, and neither does that of edges which leave different
nodes. -/
lemma alike_of_perm (hids : (d.nodes.map Node.id).Nodup) (hstart : d.nodes.countP Node.isStart ≤ 1)
    (hnodes : d.nodes.Perm d'.nodes) (hedges : d.edges.Perm d'.edges)
    (horder : ∀ id, d.outgoing id = d'.outgoing id) : Alike options d d' := by
  have hstart? : d.start? = d'.start? := find?_eq_of_perm hnodes hstart
  have hnode? : ∀ id, d.node? id = d'.node? id := by
    intro id
    refine find?_eq_of_perm hnodes ?_
    have hcount := List.nodup_iff_count_le_one.1 hids id
    rwa [List.count, List.countP_map] at hcount
  have hfirst : ∀ id, d.firstTarget? id = d'.firstTarget? id := by
    intro id
    rw [firstTarget?, firstTarget?, horder]
  refine ⟨by rw [hstart?], ?_, ?_, ?_⟩
  · rw [entrance?, entrance?, hstart?]
    simp only [hfirst]
  · intro id
    rw [← hnode?]
    cases d.node? id with
    | none => exact .none
    | some n =>
      refine .some (layout_eq_of_targets options (hfirst n.id) fun handle => ?_)
      rw [targetAt?, targetAt?, horder]
  · intro id
    exact (hedges.filter _).length_eq

/-! ## Drawing anew -/

/-- Two documents differ in names, in the order of the nodes and in that of edges which leave
different nodes, and in nothing else. -/
structure Redraws (d d' : Document) : Prop where
  nodes : (d.nodes.map Node.unnamed).Perm (d'.nodes.map Node.unnamed)
  edges : (d.edges.map Edge.unnamed).Perm (d'.edges.map Edge.unnamed)
  order : ∀ id, (d.outgoing id).map Edge.unnamed = (d'.outgoing id).map Edge.unnamed

/-- A dialogue that is drawn anew has the same program. -/
theorem compile_eq_of_redraws (d d' : Document) (hids : (d.nodes.map Node.id).Nodup)
    (hstart : d.nodes.countP Node.isStart ≤ 1) (h : d.Redraws d') (options : Options) :
    d.compile options = d'.compile options := by
  have hids' : (d.unnamed.nodes.map Node.id).Nodup := by
    rw [unnamed, List.map_map]
    exact hids
  have hstart' : d.unnamed.nodes.countP Node.isStart ≤ 1 := by
    rw [unnamed, List.countP_map]
    simpa only [Function.comp_def, Node.isStart_unnamed] using hstart
  have horder : ∀ id, d.unnamed.outgoing id = d'.unnamed.outgoing id := by
    intro id
    rw [outgoing_unnamed, outgoing_unnamed, h.order]
  calc d.compile options
    _ = d.unnamed.compile options := (d.alike_unnamed options).compile_eq
    _ = d'.unnamed.compile options :=
      (@alike_of_perm d.unnamed d'.unnamed options hids' hstart' h.nodes h.edges horder).compile_eq
    _ = d'.compile options := (d'.alike_unnamed options).compile_eq.symm

/-- A menu with two choices, the second of which leads back to it after a while. -/
def stall : Document where
  nodes := [{ id := "start", label := "Start", kind := .start },
    { id := "ask", label := "What will it be?", kind := .menu
        { choices := [{ id := "a", text := "Buy", disable := some (.switch 1 true) },
            { id := "b", text := "Wait" }] } },
    { id := "wait", kind := .action [.commonEvent 3] },
    { id := "pay", kind := .action [.commonEvent 4] }]
  edges := [{ id := "e0", source := "start", target := "ask" },
    { id := "e1", source := "ask", target := "pay", handle := some "choice-0" },
    { id := "e2", source := "ask", target := "wait", handle := some "choice-1" },
    { id := "e3", source := "wait", target := "ask" }]

/-- The same dialogue, drawn from its end. -/
def stallRedrawn : Document where
  nodes := [{ id := "pay", label := "Sold", kind := .action [.commonEvent 4] },
    { id := "wait", kind := .action [.commonEvent 3] },
    { id := "ask", kind := .menu
        { choices := [{ id := "buy", text := "Buy", disable := some (.switch 1 true) },
            { id := "wait", text := "Wait" }] } },
    { id := "start", kind := .start }]
  edges := [{ id := "w", source := "wait", target := "ask" },
    { id := "p", source := "ask", target := "pay", handle := some "choice-0" },
    { id := "s", source := "start", target := "ask" },
    { id := "q", source := "ask", target := "wait", handle := some "choice-1" }]

theorem compile_stall_eq :
    (stall.nodes.map Node.id).Nodup ∧ stall.nodes.countP Node.isStart ≤ 1 ∧
      stall.Redraws stallRedrawn ∧ stall.compile {} = stallRedrawn.compile {} := by
  have hids : (stall.nodes.map Node.id).Nodup := by decide
  have hstart : stall.nodes.countP Node.isStart ≤ 1 := by decide
  have horder : ∀ id, (stall.outgoing id).map Edge.unnamed =
      (stallRedrawn.outgoing id).map Edge.unnamed := by
    intro id
    by_cases hid : "start" = id ∨ "ask" = id ∨ "wait" = id
    · rcases hid with rfl | rfl | rfl <;> rfl
    · simp only [not_or] at hid
      simp [outgoing, stall, stallRedrawn, hid]
  have h : stall.Redraws stallRedrawn := ⟨by decide, by decide, horder⟩
  exact ⟨hids, hstart, h, compile_eq_of_redraws stall stallRedrawn hids hstart h {}⟩

end Document

end Dialogue
