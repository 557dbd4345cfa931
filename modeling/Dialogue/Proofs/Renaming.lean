import Mathlib.Data.Set.Function
import Dialogue.Proofs.Jumps
import Dialogue.Proofs.Splicing
/-!
Other names for nodes.

An id is a name and nothing else.  If the nodes of a document get other ids and the edges follow
them, then the program stays the same, except that labels and jumps name nodes by their new ids
(`compile_rename`).  Different ids must stay different, but only as far as the document mentions
them.  In particular nothing depends on the order of ids or on how they are stored in a set.

Renaming goes along with every question that the compiler asks about a document (`node?_rename`,
`jobs_rename`, `length_incoming_rename`), and so with what the compiler does (`workOff_rename`).
-/

namespace Dialogue

/-- The node under its new id. -/
def Node.rename (f : String → String) (n : Node) : Node :=
  { n with id := f n.id }

/-- The edge between nodes under their new ids. -/
def Edge.rename (f : String → String) (e : Edge) : Edge :=
  { e with source := f e.source, target := f e.target }

/-- What the compiler does, under new ids. -/
def Item.rename (f : String → String) : Item → Item
  | .enter x indent => .enter (f x) indent
  | .revisit x indent => .revisit (f x) indent
  | .emit owner c => .emit (f owner) c

/-- The job under new ids. -/
def Job.rename (f : String → String) (j : Job) : Job :=
  (f j.1, j.2.redirect f)

/-- What becomes of a command if nodes get new ids: a label and a jump name the node by its new id,
and every other command stays as it is. -/
inductive Command.Renamed (f : String → String) : Command → Command → Prop
  | label (indent : UInt32) (x : String) : Renamed f (.label indent x) (.label indent (f x))
  | jump (indent : UInt32) (x : String) :
    Renamed f (.jumpToLabel indent x) (.jumpToLabel indent (f x))
  | other {c : Command} (hlabel : c.opcode ≠ .label) (hjump : c.opcode ≠ .jumpToLabel) :
    Renamed f c c

namespace Document

/-- The document under new ids. -/
def rename (f : String → String) (d : Document) : Document where
  nodes := d.nodes.map (Node.rename f)
  edges := d.edges.map (Edge.rename f)

/-- The ids that a document mentions: those of nodes, and the ends of edges. -/
def mentioned (d : Document) : List String :=
  d.nodes.map Node.id ++ d.edges.flatMap fun e => [e.source, e.target]

variable {d : Document} {options : Options} {f : String → String}

lemma mentioned_id {n : Node} (h : n ∈ d.nodes) : n.id ∈ d.mentioned :=
  List.mem_append_left _ (List.mem_map_of_mem h)

lemma mentioned_of_node? {x : String} {n : Node} (h : d.node? x = some n) : x ∈ d.mentioned := by
  rw [← id_of_node? h]
  exact mentioned_id (mem_nodes_of_node? h)

lemma mentioned_source {e : Edge} (h : e ∈ d.edges) : e.source ∈ d.mentioned :=
  List.mem_append_right _ (List.mem_flatMap.2 ⟨e, h, by simp⟩)

lemma mentioned_target {e : Edge} (h : e ∈ d.edges) : e.target ∈ d.mentioned :=
  List.mem_append_right _ (List.mem_flatMap.2 ⟨e, h, by simp⟩)

lemma mentioned_entrance {x : String} (h : d.entrance? = some x) : x ∈ d.mentioned := by
  obtain ⟨start, e, -, he, rfl⟩ := exists_edge_of_entrance h
  exact mentioned_target (List.mem_filter.1 he).1

/-- A node leads to ids that the document mentions, whether they exist or not. -/
lemma mentioned_visit {owner : String} {n : Node} {x : String} {indent k : UInt32}
    (h : (owner, .visit x k) ∈ d.jobs options n indent) : x ∈ d.mentioned := by
  obtain ⟨t, ht, heq⟩ := List.mem_map.1 h
  obtain rfl : t = .visit x k := (Prod.mk.inj heq).2
  obtain ⟨s, hs, htarget⟩ := exists_slot_of_visit ht
  have houtlet : some x ∈ d.outlets n := by
    rw [← map_target_slots options n indent, ← htarget]
    exact List.mem_map_of_mem hs
  obtain ⟨e, he, rfl⟩ := exists_edge_of_outlet houtlet
  exact mentioned_target (List.mem_filter.1 he).1

/-! ## What the compiler asks about a document -/

lemma start?_rename : (d.rename f).start? = d.start?.map (Node.rename f) := by
  rw [start?, start?, rename, List.find?_map]
  rfl

section Injective

variable (hf : Set.InjOn f {x | x ∈ d.mentioned})

include hf

lemma beq_rename {x y : String} (hx : x ∈ d.mentioned) (hy : y ∈ d.mentioned) :
    (f x == f y) = (x == y) := by
  rw [Bool.eq_iff_iff, beq_iff_eq, beq_iff_eq]
  exact hf.eq_iff hx hy

lemma node?_rename {x : String} (hx : x ∈ d.mentioned) :
    (d.rename f).node? (f x) = (d.node? x).map (Node.rename f) := by
  rw [node?, node?, rename, List.find?_map, ← List.head?_filter, ← List.head?_filter]
  refine congrArg (fun ns => (List.head? ns).map _) (List.filter_congr fun n hn => ?_)
  exact beq_rename hf (mentioned_id hn) hx

lemma outgoing_rename {x : String} (hx : x ∈ d.mentioned) :
    (d.rename f).outgoing (f x) = (d.outgoing x).map (Edge.rename f) := by
  rw [outgoing, outgoing, rename, List.filter_map]
  refine congrArg (List.map _) (List.filter_congr fun e he => ?_)
  exact beq_rename hf (mentioned_source he) hx

lemma length_incoming_rename {x : String} (hx : x ∈ d.mentioned) :
    ((d.rename f).incoming (f x)).length = (d.incoming x).length := by
  rw [incoming, incoming, rename, List.filter_map, List.length_map]
  refine congrArg List.length (List.filter_congr fun e he => ?_)
  exact beq_rename hf (mentioned_target he) hx

lemma firstTarget?_rename {x : String} (hx : x ∈ d.mentioned) :
    (d.rename f).firstTarget? (f x) = (d.firstTarget? x).map f := by
  rw [firstTarget?, firstTarget?, outgoing_rename hf hx, List.head?_map, Option.map_map,
    Option.map_map]
  rfl

lemma targetAt?_rename {x : String} (hx : x ∈ d.mentioned) (handle : String) :
    (d.rename f).targetAt? (f x) handle = (d.targetAt? x handle).map f := by
  rw [targetAt?, targetAt?, outgoing_rename hf hx, List.find?_map, Option.map_map, Option.map_map]
  rfl

lemma entrance?_rename : (d.rename f).entrance? = d.entrance?.map f := by
  rw [entrance?, entrance?, start?_rename]
  cases hstart : d.start? with
  | none => rfl
  | some start => exact firstTarget?_rename hf (mentioned_id (List.mem_of_find?_eq_some hstart))

lemma jobs_rename {n : Node} (hn : n ∈ d.nodes) (indent : UInt32) :
    (d.rename f).jobs options (n.rename f) indent =
      (d.jobs options n indent).map (Job.rename f) := by
  have hid := mentioned_id hn
  have hlayout : (d.rename f).layout options (n.rename f) indent =
      (d.layout options n indent).redirect f :=
    @layout_redirect_of_eq d (d.rename f) options n (n.rename f) rfl rfl f
      (firstTarget?_rename hf hid) (targetAt?_rename hf hid) indent
  rw [jobs, jobs, hlayout, Layout.tasks_redirect, List.map_map, List.map_map]
  rfl

/-! ## What the compiler does -/

/-- By the recursion of `workOff`: what the compiler does goes along with the new ids, as long as
the same nodes are unvisited and only ids that the document mentions are visited. -/
theorem workOff_rename (js : List Job) (u : IdSet) :
    ∀ u' : IdSet, (∀ x ∈ d.mentioned, (f x ∈ u' ↔ x ∈ u)) →
      (∀ owner x k, (owner, .visit x k) ∈ js → x ∈ d.mentioned) →
      (d.rename f).workOff options (js.map (Job.rename f)) u' =
        (d.workOff options js u).map (Item.rename f) := by
  fun_induction d.workOff options js u with
  | case1 u =>
    intro u' _ _
    rw [List.map_nil, workOff]
    rfl
  | case2 owner c js u ih =>
    intro u' hu hjs
    have ih := ih u' hu fun owner x k h => hjs owner x k (List.mem_cons_of_mem _ h)
    show (d.rename f).workOff options ((f owner, .emit c) :: js.map (Job.rename f)) u' = _
    rw [workOff, ih]
    rfl
  | case3 owner x indent js u hnone ih =>
    intro u' hu hjs
    have hx := hjs owner x indent List.mem_cons_self
    have hnone' : (d.rename f).node? (f x) = none := by rw [node?_rename hf hx, hnone]; rfl
    exact (workOff_dead hnone' _ indent _ u').trans
      (ih u' hu fun owner x k h => hjs owner x k (List.mem_cons_of_mem _ h))
  | case4 owner x indent js u n hn hmem ih =>
    intro u' hu hjs
    have hx := hjs owner x indent List.mem_cons_self
    have hn' : (d.rename f).node? (f x) = some (n.rename f) := by rw [node?_rename hf hx, hn]; rfl
    have hu' : ∀ y ∈ d.mentioned, (f y ∈ u'.erase (f x) ↔ y ∈ u.erase x) := by
      intro y hy
      rw [Std.HashSet.mem_erase, Std.HashSet.mem_erase, hu y hy, beq_rename hf hx hy]
    have hjs' : ∀ owner y k, (owner, .visit y k) ∈ d.jobs options n indent ++ js →
        y ∈ d.mentioned := by
      intro owner y k h
      rcases List.mem_append.1 h with h | h
      · exact mentioned_visit h
      · exact hjs owner y k (List.mem_cons_of_mem _ h)
    have ih := ih _ hu' hjs'
    rw [List.map_append, ← jobs_rename hf (mem_nodes_of_node? hn)] at ih
    rw [List.map_cons, List.map_cons, ← ih]
    exact workOff_enter hn' ((hu x hx).2 hmem) _ indent _
  | case5 owner x indent js u n hn hmem ih =>
    intro u' hu hjs
    have hx := hjs owner x indent List.mem_cons_self
    have hn' : (d.rename f).node? (f x) = some (n.rename f) := by rw [node?_rename hf hx, hn]; rfl
    have ih := ih u' hu fun owner x k h => hjs owner x k (List.mem_cons_of_mem _ h)
    rw [List.map_cons, List.map_cons, ← ih]
    exact workOff_jump hn' (mt (hu x hx).1 hmem) _ indent _

lemma items_rename : (d.rename f).items options = (d.items options).map (Item.rename f) := by
  have hids : ∀ x ∈ d.mentioned, (f x ∈ (d.rename f).allIds ↔ x ∈ d.allIds) := by
    intro x hx
    rw [mem_allIds, mem_allIds, node?_rename hf hx, Option.isSome_map]
  rw [items_eq_workOff, items_eq_workOff, firstJobs, firstJobs, entrance?_rename hf]
  cases hentrance : d.entrance? with
  | none => simp [visitAny, workOff]
  | some x =>
    have hvisit : ∀ owner y k, (owner, .visit y k) ∈ [(("", .visit x 0) : Job)] →
        y ∈ d.mentioned := by
      intro owner y k h
      cases List.mem_singleton.1 h
      exact mentioned_entrance hentrance
    calc (d.rename f).workOff options [("", .visit (f x) 0)] (d.rename f).allIds
      _ = (d.rename f).workOff options [(f "", .visit (f x) 0)] (d.rename f).allIds :=
        workOff_owner "" (f "") (f x) 0 [] _
      _ = (d.workOff options [("", .visit x 0)] d.allIds).map (Item.rename f) :=
        workOff_rename hf _ _ _ hids hvisit

/-! ## The program -/

lemma needsLabel_rename {x : String} (hx : x ∈ d.mentioned) :
    (d.rename f).needsLabel (f x) = d.needsLabel x := by
  have hjumps : (d.rename f).trunk.jumps = d.trunk.jumps.map f := by
    rw [← filterMap_revisited?_items {}, ← filterMap_revisited?_items {}, items_rename hf,
      List.filterMap_map, List.map_filterMap]
    refine List.filterMap_congr fun i _ => ?_
    cases i <;> rfl
  refine needsLabel_congr (length_incoming_rename hf hx) ?_
  rw [hjumps, List.mem_map]
  constructor
  · rintro ⟨y, hy, heq⟩
    obtain ⟨n, hn⟩ := Option.isSome_iff_exists.1 (follows_trunk.node?_jumps hy)
    rwa [← hf (mentioned_of_node? hn) hx heq]
  · intro h
    exact ⟨x, h, rfl⟩

/-- The commands of one thing that the compiler does, under new ids. -/
lemma renamed_commands {i : Item} (hi : i ∈ d.items options) :
    List.Forall₂ (Command.Renamed f) (i.commands d.needsLabel)
      ((i.rename f).commands (d.rename f).needsLabel) := by
  cases i with
  | enter x k =>
    have hx : x ∈ d.mentioned := by
      have hentered : x ∈ d.trunk.enteredIds := by
        rw [← filterMap_entered?_items options]
        exact List.mem_filterMap.2 ⟨_, hi, rfl⟩
      obtain ⟨n, hn, rfl⟩ := List.mem_map.1 hentered
      exact mentioned_of_node? (follows_trunk.node?_entered hn)
    rw [Item.rename, Item.commands, Item.commands, needsLabel_rename hf hx]
    split
    · exact .cons (.label k x) .nil
    · exact .nil
  | revisit x k => exact .cons (.jump k x) .nil
  | emit owner c =>
    obtain ⟨hlabel, hjump⟩ := opcode_of_emit hi
    exact .cons (.other hlabel hjump) .nil

end Injective

lemma renamed_flatMap {items : List Item} {needs needs' : String → Bool}
    (h : ∀ i ∈ items, List.Forall₂ (Command.Renamed f) (i.commands needs)
      ((i.rename f).commands needs')) :
    List.Forall₂ (Command.Renamed f) (items.flatMap (Item.commands needs))
      ((items.map (Item.rename f)).flatMap (Item.commands needs')) := by
  induction items with
  | nil => exact .nil
  | cons i items ih =>
    rw [List.map_cons, List.flatMap_cons, List.flatMap_cons]
    exact List.rel_append (h i List.mem_cons_self)
      (ih fun i' hi' => h i' (List.mem_cons_of_mem _ hi'))

/-- If nodes get new ids, then labels and jumps name them by these, and the program stays the same
otherwise.  Ids that the document mentions must stay different. -/
theorem compile_rename (d : Document) (f : String → String)
    (hf : Set.InjOn f {x | x ∈ d.mentioned}) (options : Options) :
    List.Forall₂ (Command.Renamed f) (d.compile options) ((d.rename f).compile options) := by
  have hitems := renamed_flatMap fun i hi => @renamed_commands d options f hf i hi
  rw [← items_rename hf] at hitems
  rw [compile_eq_ite, compile_eq_ite, start?_rename, Option.isSome_map]
  split
  · refine List.rel_append hitems (.cons (.other ?_ ?_) .nil) <;> simp [Command.stop]
  · exact .nil

/-- New ids for `bargain`, one of which was the id of another node. -/
def newIds (id : String) : String :=
  if id = "ask" then "pay" else if id = "pay" then "shop" else id

theorem compile_bargain_rename :
    Set.InjOn newIds {x | x ∈ bargain.mentioned} ∧
      List.Forall₂ (Command.Renamed newIds) (bargain.compile {})
        ((bargain.rename newIds).compile {}) := by
  have hf : Set.InjOn newIds {x | x ∈ bargain.mentioned} := by
    have hdistinct : ∀ x ∈ bargain.mentioned, ∀ y ∈ bargain.mentioned,
        newIds x = newIds y → x = y := by decide
    exact fun x hx y hy => hdistinct x hx y hy
  exact ⟨hf, compile_rename bargain newIds hf {}⟩

end Document

end Dialogue
