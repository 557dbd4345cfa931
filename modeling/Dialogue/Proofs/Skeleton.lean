import Dialogue.Proofs.Jumps
import Dialogue.Proofs.Muting
/-!
The skeleton of a program.

Where a dialogue goes, how deep it is nested and where labels and jumps stand does not depend on
what its nodes say and do.  It depends on the edges, on what kind of node each of them is and which
ones are muted, and of a menu on how many choices it has and whether cancelling it is a branch.  In
particular a menu with fixed choices and one whose choices a script sets up have the same skeleton,
although they are compiled in different ways.

Two documents that agree in these things resemble each other (`Document.Resembles`).  The compiler
makes the same visits in both of them, at the same depths (`Resembles.parallel`).  The commands of a
program belong to nodes (`attributes_owned`), and what a node contributes to the program is known
from the depth at which it is entered (`contribution_eq`).
-/

namespace Dialogue

/-! ## Documents that resemble each other -/

/-- Two nodes are for the same, with payloads of their own. -/
inductive NodeKind.Resembles : NodeKind → NodeKind → Prop
  | start : Resembles .start .start
  | menu {m m' : Menu} (choices : m.choices.length = m'.choices.length)
    (cancel : m.cancel = .branch ↔ m'.cancel = .branch) : Resembles (.menu m) (.menu m')
  | action (actions actions' : List Action) : Resembles (.action actions) (.action actions')
  | condition (c c' : Condition) : Resembles (.condition c) (.condition c')
  | finish : Resembles .finish .finish
  | group : Resembles .group .group
  | comment : Resembles .comment .comment

/-- Two nodes have the same id and are for the same, and both are muted or none is. -/
inductive Node.Resembles : Node → Node → Prop
  | mk {id label label' : String} {muted : Bool} {kind kind' : NodeKind}
    (h : kind.Resembles kind') : Resembles ⟨id, label, muted, kind⟩ ⟨id, label', muted, kind'⟩

/-- Two documents have the same edges, and their nodes resemble each other one by one. -/
structure Document.Resembles (d d' : Document) : Prop where
  nodes : List.Forall₂ Node.Resembles d.nodes d'.nodes
  edges : d.edges = d'.edges

lemma Node.Resembles.id_eq {n n' : Node} (h : n.Resembles n') : n.id = n'.id := by
  obtain ⟨-⟩ := h
  rfl

lemma Node.Resembles.isStart_eq {n n' : Node} (h : n.Resembles n') : n.isStart = n'.isStart := by
  obtain ⟨hkind⟩ := h
  cases hkind <;> rfl

lemma Menu.routes_eq {m m' : Menu} (hchoices : m.choices.length = m'.choices.length)
    (hcancel : m.cancel = .branch ↔ m'.cancel = .branch) : m.routes = m'.routes := by
  rw [routes, routes, hchoices]
  congr 1
  revert hcancel
  generalize m.cancel = cancel
  generalize m'.cancel = cancel'
  cases cancel <;> cases cancel' <;> simp

namespace Document

variable {d d' : Document} {options options' : Options}

namespace Resembles

variable (h : d.Resembles d')

include h

lemma firstTarget?_eq (id : String) : d.firstTarget? id = d'.firstTarget? id := by
  rw [firstTarget?, firstTarget?, outgoing, outgoing, h.edges]

lemma targetAt?_eq (id handle : String) : d.targetAt? id handle = d'.targetAt? id handle := by
  rw [targetAt?, targetAt?, outgoing, outgoing, h.edges]

lemma rel_start? : Option.Rel Node.Resembles d.start? d'.start? :=
  rel_find? (fun _ _ hn => hn.isStart_eq) h.nodes

lemma rel_node? (x : String) : Option.Rel Node.Resembles (d.node? x) (d'.node? x) :=
  rel_find? (fun _ _ hn => by rw [hn.id_eq]) h.nodes

lemma isSome_node? (x : String) : (d.node? x).isSome = (d'.node? x).isSome :=
  isSome_eq_of_rel (h.rel_node? x)

/-- The dialogue can go to the same places from nodes that resemble each other. -/
lemma outlets_eq {n n' : Node} (hn : n.Resembles n') : d.outlets n = d'.outlets n' := by
  have hstart := hn.isStart_eq
  obtain ⟨hkind⟩ := hn
  simp only [outlets, bypass?, hstart, h.firstTarget?_eq, h.targetAt?_eq]
  cases hkind with
  | menu hchoices hcancel => simp only [Menu.routes_eq hchoices hcancel]
  | start | action | condition | finish | group | comment => rfl

omit h in
/-- From nodes that resemble each other it goes on equally deep. -/
lemma depth_layout_eq {n n' : Node} (hn : n.Resembles n') (indent : UInt32) :
    (d.layout options n indent).depth = (d'.layout options' n' indent).depth := by
  have hstart := hn.isStart_eq
  obtain ⟨hkind⟩ := hn
  rw [layout, layout, hstart]
  split
  · rfl
  · cases hkind with
    | menu hchoices hcancel =>
      dsimp only
      split <;> split <;> rfl
    | start | action | condition | finish | group | comment => rfl

/-- Nodes that resemble each other and have the same payload have the same layout, unless disabled
choices are marked in different ways and that is seen. -/
lemma layout_eq {n n' : Node} (hn : n.Resembles n') (hkind : n.kind = n'.kind)
    (hmark : ∀ m, n.kind = .menu m → m.isDynamic →
      options.disabledMark = options'.disabledMark) :
    d.layout options n = d'.layout options' n' := by
  have htargets := @layout_eq_of_targets d d' options n (h.firstTarget?_eq n.id)
    (h.targetAt?_eq n.id)
  obtain @⟨id, label, label', muted, kind, kind', -⟩ := hn
  obtain rfl : kind = kind' := hkind
  rw [htargets]
  funext indent
  cases kind with
  | menu m =>
    by_cases hdynamic : m.isDynamic
    · obtain ⟨mark⟩ := options
      obtain ⟨mark'⟩ := options'
      obtain rfl : mark = mark' := hmark m rfl hdynamic
      rfl
    · simp [layout, hdynamic, Node.isStart, bypass?]
  | start | action | condition | finish | group | comment => rfl

end Resembles

end Document

/-! ## Visits -/

/-- A visit, without the commands between visits. -/
def Item.visiting? : Item → Option Item
  | .enter id indent => some (.enter id indent)
  | .revisit id indent => some (.revisit id indent)
  | .emit _ _ => none

/-- The node that is entered, and at which depth. -/
def Item.arrival? : Item → Option (String × UInt32)
  | .enter id indent => some (id, indent)
  | .revisit _ _ | .emit _ _ => none

lemma visiting?_bind_revisited? (i : Item) : i.visiting?.bind Item.revisited? = i.revisited? := by
  cases i <;> rfl

lemma visiting?_bind_arrival? (i : Item) : i.visiting?.bind Item.arrival? = i.arrival? := by
  cases i <;> rfl

lemma Emission.map_entriesFrom (index : Index) (k : Nat) (items : List Item) :
    (entriesFrom index k items).map (fun e => (e.id, e.indent)) =
      items.filterMap Item.arrival? := by
  induction items generalizing k with
  | nil => rfl
  | cons i items ih =>
    cases i with
    | enter id indent => simp [entriesFrom, Item.arrival?, ih]
    | revisit id indent => exact ih (k + 1)
    | emit owner c => exact ih (k + 1)

/-- Of a plan only the visits are seen if commands are not looked at. -/
lemma filterMap_seen_visiting? {d : Document} (l : Layout) (owner : String) :
    (l.tasks.map (owner, ·)).filterMap (Job.seen d Item.visiting?) =
      ((l.slots.map Slot.target).flatMap (visitAny · l.depth)).filterMap
        fun t => Job.seen d Item.visiting? (owner, t) := by
  have hemits : ∀ cs : List Command,
      ((cs.map Task.emit).map (owner, ·)).filterMap (Job.seen d Item.visiting?) = [] := by
    intro cs
    simp [Job.seen, Item.visiting?]
  simp only [Layout.tasks, List.map_append, List.filterMap_append, hemits, List.nil_append,
    List.append_nil]
  induction l.slots with
  | nil => rfl
  | cons s ss ih =>
    simp only [List.flatMap_cons, List.map_cons, List.map_append, List.filterMap_append, Slot.tasks,
      hemits, List.nil_append, List.append_nil, ih, List.filterMap_map]
    rfl

namespace Document

variable {d d' : Document} {options options' : Options}

namespace Resembles

variable (h : d.Resembles d')

include h

/-- In two documents that resemble each other the compiler makes the same visits. -/
lemma parallel : Parallel Item.visiting? options options' d d' where
  nodes := h.isSome_node?
  entrance := by
    have hrel := h.rel_start?
    rw [entrance?, entrance?]
    generalize d.start? = start at hrel ⊢
    generalize d'.start? = start' at hrel ⊢
    cases hrel with
    | some hn => rw [Option.bind_some, Option.bind_some, hn.id_eq, h.firstTarget?_eq]
    | none => rfl
  reached x hx := by
    obtain ⟨n, hn⟩ := Option.isSome_iff_exists.1 hx.isSome
    have hrel := h.rel_node? x
    rw [hn] at hrel
    generalize hn' : d'.node? x = found at hrel
    obtain ⟨hres⟩ := hrel
    refine ⟨n, _, hn, rfl, fun indent => ?_⟩
    rw [jobs, jobs, filterMap_seen_visiting?, filterMap_seen_visiting?, map_target_slots,
      map_target_slots, h.outlets_eq hres, depth_layout_eq hres, hres.id_eq,
      seen_congr h.isSome_node?]

lemma filterMap_arrival?_items :
    (d.items options).filterMap Item.arrival? = (d'.items options').filterMap Item.arrival? := by
  have hbind := (@parallel d d' options options' h).filterMap_items_bind Item.arrival?
  simpa only [visiting?_bind_arrival?] using hbind

lemma needsLabel_eq : d.needsLabel = d'.needsLabel := by
  funext x
  refine (@parallel d d' {} {} h).needsLabel_eq visiting?_bind_revisited? ?_
  rw [incoming, incoming, h.edges]

end Resembles

end Document

/-! ## What a node contributes -/

/-- The command, if it belongs to node `x`. -/
def Item.ofNode? (x : String) : Item → Option Command
  | .emit owner c => if owner = x then some c else none
  | .enter _ _ | .revisit _ _ => none

/-- The node to which the commands of an item belong. -/
def Item.owner? : Item → Option String
  | .emit owner _ => some owner
  | .enter _ _ | .revisit _ _ => none

/-- The commands of an item, with the node to which they belong. -/
def Item.owned (needs : String → Bool) (i : Item) : List (Option String × Command) :=
  (i.commands needs).map (i.owner?, ·)

/-- The commands of a program are listed with the nodes to which they belong: all of them are there,
in order, and all but labels, jumps and the end belong to a node. -/
structure Attributes (program : List Command) (owned : List (Option String × Command)) : Prop where
  commands : owned.map Prod.snd = program
  rest : ∀ c, (none, c) ∈ owned → c.opcode = .label ∨ c.opcode = .jumpToLabel ∨ c = .stop 0

/-- The command that is to be emitted, if it belongs to node `x`. -/
def Job.ofNode? (x : String) : Job → Option Command
  | (owner, .emit c) => if owner = x then some c else none
  | (_, .visit _ _) => none

lemma filterMap_ofNode?_tasks (l : Layout) (owner x : String) :
    (l.tasks.map (owner, ·)).filterMap (Job.ofNode? x) = if owner = x then l.own else [] := by
  have hemits : ∀ cs : List Command, ((cs.map Task.emit).map (owner, ·)).filterMap (Job.ofNode? x) =
      if owner = x then cs else [] := by
    intro cs
    rw [List.filterMap_map, List.filterMap_map]
    split
    · next hx => simp [Function.comp_def, Job.ofNode?, hx]
    · next hx => simp [Function.comp_def, Job.ofNode?, hx]
  have hvisits : ∀ target, ((visitAny target l.depth).map (owner, ·)).filterMap (Job.ofNode? x) =
      [] := by
    intro target
    simp [visitAny, Job.ofNode?]
  have hslots : ((l.slots.flatMap (Slot.tasks l.depth)).map (owner, ·)).filterMap (Job.ofNode? x) =
      if owner = x then l.slots.flatMap (fun s => s.before ++ s.after) else [] := by
    induction l.slots with
    | nil => simp
    | cons s ss ih =>
      simp only [List.flatMap_cons, List.map_append, List.filterMap_append, Slot.tasks, hemits,
        hvisits, ih]
      split <;> simp
  rw [Layout.tasks, List.map_append, List.map_append, List.filterMap_append, List.filterMap_append,
    hemits, hemits, hslots]
  split <;> rfl

namespace Document

variable {d d' : Document} {options options' : Options}

/-- The commands of a program, each with the node to which it belongs.  Labels, jumps and the end
belong to no node. -/
def owned (d : Document) (options : Options) : List (Option String × Command) :=
  if d.start?.isSome then
    (d.items options).flatMap (Item.owned d.needsLabel) ++ [(none, .stop 0)]
  else []

/-- Without their nodes they are the program, and only labels, jumps and the end have no node. -/
lemma attributes_owned (d : Document) (options : Options) :
    Attributes (d.compile options) (d.owned options) where
  commands := by
    rw [owned, compile_eq_ite]
    split
    · rw [List.map_append, List.map_flatMap]
      simp only [Item.owned, List.map_map, Function.comp_def, List.map_id']
      rfl
    · rfl
  rest c hc := by
    rw [owned] at hc
    split at hc
    · rcases List.mem_append.1 hc with hc | hc
      · obtain ⟨i, -, hi⟩ := List.mem_flatMap.1 hc
        obtain ⟨c, hc, howner⟩ := List.mem_map.1 hi
        obtain ⟨hnone, rfl⟩ := Prod.mk.inj howner
        cases i with
        | enter y indent =>
          rw [Item.commands] at hc
          split at hc
          · obtain rfl := List.mem_singleton.1 hc
            exact .inl rfl
          · cases hc
        | revisit y indent =>
          obtain rfl := List.mem_singleton.1 hc
          exact .inr (.inl rfl)
        | emit owner c => cases hnone
      · obtain ⟨-, rfl⟩ := Prod.mk.inj (List.mem_singleton.1 hc)
        exact .inr (.inr rfl)
    · cases hc

/-- The commands of a program that belong to node `x`, in order. -/
def contribution (d : Document) (options : Options) (x : String) : List Command :=
  ((d.owned options).filter (·.1 = some x)).map Prod.snd

/-- They are what the compiler emits for the node. -/
lemma contribution_eq_filterMap (x : String) :
    d.contribution options x = (d.items options).filterMap (Item.ofNode? x) := by
  have hitems : ∀ items : List Item,
      ((items.flatMap (Item.owned d.needsLabel)).filter (·.1 = some x)).map Prod.snd =
        items.filterMap (Item.ofNode? x) := by
    intro items
    induction items with
    | nil => rfl
    | cons i items ih =>
      rw [List.flatMap_cons, List.filter_append, List.map_append, ih]
      cases i with
      | enter y indent => simp [Item.owned, Item.owner?, Item.ofNode?, List.filterMap_cons]
      | revisit y indent => rfl
      | emit owner c =>
        by_cases howner : owner = x <;>
          simp [Item.owned, Item.owner?, Item.commands, Item.ofNode?, howner]
  rw [contribution, owned]
  split
  · rw [List.filter_append, List.map_append, hitems]
    exact List.append_nil _
  · next h =>
    have hstart : d.start? = none := Option.not_isSome_iff_eq_none.1 h
    simp [items_eq_workOff, firstJobs, entrance?, hstart, visitAny, workOff]

/-- By the recursion of `workOff`: the commands of a node are those that are still to be emitted
and, if it is not entered yet, those of its plan. -/
lemma filterMap_ofNode?_workOff {x : String} {n : Node} (hn : d.node? x = some n) (js : List Job)
    (u : IdSet) (hjs : x ∈ u → js.filterMap (Job.ofNode? x) = []) :
    (d.workOff options js u).filterMap (Item.ofNode? x) =
      js.filterMap (Job.ofNode? x) ++
        (((d.workOff options js u).filterMap Item.arrival?).filter (·.1 == x)).flatMap
          fun e => (d.layout options n e.2).own := by
  fun_induction d.workOff options js u with
  | case1 u => rfl
  | case2 owner c js u ih =>
    by_cases hx : owner = x
    · have hu : x ∉ u := by
        intro hmem
        simpa [Job.ofNode?, hx] using hjs hmem
      have ih := ih fun hmem => absurd hmem hu
      simp [List.filterMap_cons, Item.ofNode?, Job.ofNode?, Item.arrival?, hx, ih]
    · have hjob : Job.ofNode? x (owner, .emit c) = none := by simp [Job.ofNode?, hx]
      rw [List.filterMap_cons_none hjob] at hjs ⊢
      simpa [List.filterMap_cons, Item.ofNode?, Item.arrival?, hx] using ih hjs
  | case3 owner y indent js u hnone ih => exact ih hjs
  | case4 owner y indent js u m hm hmem ih =>
    have hjobs : (d.jobs options m indent).filterMap (Job.ofNode? x) =
        if y = x then (d.layout options m indent).own else [] := by
      rw [jobs, filterMap_ofNode?_tasks, id_of_node? hm]
    rw [List.filterMap_append, hjobs] at ih
    have hjob : Job.ofNode? x (owner, .visit y indent) = none := rfl
    rw [List.filterMap_cons_none hjob] at hjs ⊢
    by_cases hx : y = x
    · -- the node itself: from now on its commands are among the jobs
      subst hx
      obtain rfl : m = n := Option.some.inj (hm.symm.trans hn)
      have hrest : js.filterMap (Job.ofNode? y) = [] := hjs hmem
      have ih := ih (by simp)
      simpa [List.filterMap_cons, Item.ofNode?, Item.arrival?, hrest] using ih
    · have ih := ih fun herase => by rw [if_neg hx, hjs (Std.HashSet.mem_erase.1 herase).2]; rfl
      simpa [List.filterMap_cons, Item.ofNode?, Item.arrival?, hx] using ih
  | case5 owner y indent js u m hm hmem ih => exact ih hjs

/-- A node contributes its own commands, at the depth at which it is entered. -/
theorem contribution_eq {x : String} {n : Node} (hn : d.node? x = some n) :
    d.contribution options x =
      (((d.items options).filterMap Item.arrival?).filter (·.1 == x)).flatMap
        fun e => (d.layout options n e.2).own := by
  have hfirst : d.firstJobs.filterMap (Job.ofNode? x) = [] := by
    simp [firstJobs, visitAny, Job.ofNode?]
  rw [contribution_eq_filterMap, items_eq_workOff,
    filterMap_ofNode?_workOff hn _ _ fun _ => hfirst, hfirst, List.nil_append]

/-! ## The skeleton -/

/-- The nodes that are entered, and at which depths, in order. -/
lemma map_entries_finished :
    (d.finished options).entries.toList.map (fun e => (e.id, e.indent)) =
      (d.items options).filterMap Item.arrival? := by
  rw [finished_eq, emission, Emission.entries_performAll,
    ← @Emission.map_entriesFrom (Index.ofDocument d) 0]
  simp [Emission.initial]

/-- The labels and jumps among what the compiler does come from visits. -/
lemma filter_flatMap_commands {items : List Item} (h : ∀ i ∈ items, i ∈ d.items options) :
    (items.flatMap (Item.commands d.needsLabel)).filter
        (fun c => c.opcode = .label ∨ c.opcode = .jumpToLabel) =
      (items.filterMap Item.visiting?).flatMap (Item.commands d.needsLabel) := by
  induction items with
  | nil => rfl
  | cons i items ih =>
    have ih := ih fun i' hi' => h i' (List.mem_cons_of_mem _ hi')
    rw [List.flatMap_cons, List.filter_append, ih]
    cases i with
    | enter x k =>
      have hvisit : Item.visiting? (.enter x k) = some (.enter x k) := rfl
      rw [List.filterMap_cons_some hvisit, List.flatMap_cons, Item.commands]
      split <;> rfl
    | revisit x k => rfl
    | emit owner c =>
      obtain ⟨hlabel, hjump⟩ := opcode_of_emit (h _ List.mem_cons_self)
      rw [List.filterMap_cons_none rfl, Item.commands]
      simp [hlabel, hjump]

/-- The labels and jumps of a program come from visits. -/
lemma filter_compile :
    (d.compile options).filter (fun c => c.opcode = .label ∨ c.opcode = .jumpToLabel) =
      if d.start?.isSome then
        ((d.items options).filterMap Item.visiting?).flatMap (Item.commands d.needsLabel)
      else [] := by
  rw [compile_eq_ite]
  split
  · rw [List.filter_append, filter_flatMap_commands fun i hi => hi]
    exact List.append_nil _
  · rfl

/-- Two documents that resemble each other have the same skeleton, whatever their nodes say and do
and however disabled choices are marked: nodes are entered in the same order and at the same depths,
labels and jumps are the same, and a node with the same payload contributes the same commands to the
program, unless it is a menu whose choices a script sets up and disabled choices are marked
differently. -/
theorem skeleton_eq_of_resembles (d d' : Document) (h : d.Resembles d')
    (options options' : Options) :
    (d.finished options).entries.toList.map (fun e => (e.id, e.indent)) =
        (d'.finished options').entries.toList.map (fun e => (e.id, e.indent)) ∧
      (d.compile options).filter (fun c => c.opcode = .label ∨ c.opcode = .jumpToLabel) =
        (d'.compile options').filter (fun c => c.opcode = .label ∨ c.opcode = .jumpToLabel) ∧
      Attributes (d.compile options) (d.owned options) ∧
      Attributes (d'.compile options') (d'.owned options') ∧
      ∀ x n n', d.node? x = some n → d'.node? x = some n' → n.kind = n'.kind →
        (∀ m, n.kind = .menu m → m.isDynamic → options.disabledMark = options'.disabledMark) →
        d.contribution options x = d'.contribution options' x := by
  have harrivals := @Resembles.filterMap_arrival?_items d d' options options' h
  refine ⟨?_, ?_, attributes_owned d options, attributes_owned d' options', ?_⟩
  · rw [map_entries_finished, map_entries_finished, harrivals]
  · rw [filter_compile, filter_compile, isSome_eq_of_rel h.rel_start?, h.needsLabel_eq,
      h.parallel.filterMap_items]
  · intro x n n' hn hn' hkind hmark
    have hrel := h.rel_node? x
    rw [hn, hn'] at hrel
    obtain ⟨hres⟩ := hrel
    rw [contribution_eq hn, contribution_eq hn', harrivals, h.layout_eq hres hkind hmark]

/-- A dialogue that resembles `bargain`, with a menu whose choices a script sets up. -/
def haggle : Document where
  nodes := [{ id := "start", label := "Market", kind := .start },
    { id := "ask", kind := .menu
        { prompt := some { text := "Well?" }
          choices := [{ id := "c", text := "Offer less", hide := some (.switch 4 true) },
            { id := "d", text := "Walk away", disable := some (.compare 2 .less 10) }]
          cancel := .branch, position := 1 } },
    { id := "rich", kind := .condition (.compare 7 .greater 100) },
    { id := "pay", kind := .action [.commonEvent 3] }]
  edges := bargain.edges

theorem skeleton_bargain_eq :
    bargain.Resembles haggle ∧
      (bargain.finished {}).entries.toList.map (fun e => (e.id, e.indent)) =
        (haggle.finished ⟨"> "⟩).entries.toList.map (fun e => (e.id, e.indent)) ∧
      (bargain.compile {}).filter (fun c => c.opcode = .label ∨ c.opcode = .jumpToLabel) =
        (haggle.compile ⟨"> "⟩).filter (fun c => c.opcode = .label ∨ c.opcode = .jumpToLabel) ∧
      Attributes (haggle.compile ⟨"> "⟩) (haggle.owned ⟨"> "⟩) ∧
      bargain.contribution {} "pay" = haggle.contribution ⟨"> "⟩ "pay" := by
  have h : bargain.Resembles haggle :=
    ⟨.cons (.mk .start) (.cons (.mk (.menu rfl Iff.rfl)) (.cons (.mk (.condition _ _))
      (.cons (.mk (.action _ _)) .nil))), rfl⟩
  obtain ⟨hentries, hlabels, -, howned, hsame⟩ :=
    skeleton_eq_of_resembles bargain haggle h {} ⟨"> "⟩
  exact ⟨h, hentries, hlabels, howned, hsame "pay" _ _ rfl rfl rfl fun m hm => by cases hm⟩

end Document

end Dialogue
