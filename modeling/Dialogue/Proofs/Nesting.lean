import Mathlib.Data.Finset.Card
import Mathlib.Data.List.InsertIdx
import Mathlib.Logic.Relation
import Dialogue.Proofs.Jumps
import Dialogue.Proofs.Steps
/-!
The work of the compiler ends, and its blocks are not nested deeper than there are nodes that open
them.

The compiler takes one task after the other from its list (`Work.turn`); a task that visits a new
node puts the plan of that node in front.  The list gets empty for every document, however its
edges run (`Work.reaches_run`).

The depth of a command is a word, and a word can run over.  It does not: only a condition or a menu
goes one level deeper, and a node is entered once.  The commands that have been emitted do not show
this alone, since those that close their blocks are still to come; so it is proved for all that has
been emitted and all that is yet to do (`Work.Nested`), turn by turn.
-/

namespace Dialogue

open Relation (ReflTransGen)

/-! ## Turns -/

/-- The state of the compiler between two tasks. -/
structure Work where
  /-- What is yet to do, in order. -/
  tasks : List Task
  /-- What has been done. -/
  done : Emission

namespace Work

variable (index : Index) (options : Options)

/-- Takes the first task and does it.  There is no turn if there is no task. -/
def turn (w : Work) : Option Work :=
  match w.tasks with
  | [] => none
  | .emit c :: tasks => some ⟨tasks, w.done.emit c⟩
  | .visit id indent :: tasks =>
    match index.node? id with
    | none => some ⟨tasks, w.done⟩
    | some n =>
      if id ∈ w.done.unvisited then
        some ⟨index.nodePlan options n indent ++ tasks,
          w.done.enter id indent (index.isConvergence id)⟩
      else some ⟨tasks, w.done.revisit id indent (index.isConvergence id)⟩

/-- One turn leads from `w` to `w'`. -/
def Turns (w w' : Work) : Prop :=
  w.turn index options = some w'

/-- All that a turn can do. -/
inductive Step : Work → Work → Prop
  | emit (c : Command) (tasks : List Task) (st : Emission) :
      Step ⟨.emit c :: tasks, st⟩ ⟨tasks, st.emit c⟩
  | skip {id : String} (hn : index.node? id = none) (indent : UInt32) (tasks : List Task)
      (st : Emission) : Step ⟨.visit id indent :: tasks, st⟩ ⟨tasks, st⟩
  | enter {id : String} {n : Node} {st : Emission} (hn : index.node? id = some n)
      (hid : id ∈ st.unvisited) (indent : UInt32) (tasks : List Task) :
      Step ⟨.visit id indent :: tasks, st⟩
        ⟨index.nodePlan options n indent ++ tasks, st.enter id indent (index.isConvergence id)⟩
  | revisit {id : String} {n : Node} {st : Emission} (hn : index.node? id = some n)
      (hid : id ∉ st.unvisited) (indent : UInt32) (tasks : List Task) :
      Step ⟨.visit id indent :: tasks, st⟩
        ⟨tasks, st.revisit id indent (index.isConvergence id)⟩

variable {index options}

lemma Turns.step {w w' : Work} (h : Turns index options w w') : Step index options w w' := by
  obtain ⟨tasks, st⟩ := w
  unfold Turns turn at h
  match tasks with
  | [] => cases h
  | .emit c :: tasks =>
    obtain rfl := Option.some.inj h
    exact .emit c tasks st
  | .visit id indent :: tasks =>
    dsimp only at h
    cases hn : index.node? id with
    | none =>
      rw [hn] at h
      obtain rfl := Option.some.inj h
      exact .skip hn indent tasks st
    | some n =>
      rw [hn] at h
      dsimp only at h
      split at h <;> obtain rfl := Option.some.inj h
      · next hid => exact .enter hn hid indent tasks
      · next hid => exact .revisit hn hid indent tasks

lemma turn_eq_none_iff {w : Work} : w.turn index options = none ↔ w.tasks = [] := by
  fun_cases w.turn index options <;> simp_all

lemma turns_enter {id : String} {n : Node} {st : Emission} (hn : index.node? id = some n)
    (hid : id ∈ st.unvisited) (indent : UInt32) (tasks : List Task) :
    Turns index options ⟨.visit id indent :: tasks, st⟩
      ⟨index.nodePlan options n indent ++ tasks, st.enter id indent (index.isConvergence id)⟩ := by
  simp [Turns, turn, hn, hid]

/-- Turn after turn, all tasks are worked off. -/
theorem reaches_run (tasks : List Task) (st : Emission) :
    ReflTransGen (Turns index options) ⟨tasks, st⟩
      ⟨[], Emission.run index options tasks st⟩ := by
  fun_induction Emission.run index options tasks st with
  | case1 st => exact .refl
  | case2 c tasks st ih => exact .head rfl ih
  | case3 id indent tasks st hid ih => exact .head (by simp [Turns, turn, hid]) ih
  | case4 id indent tasks st n hn _ hid ih => exact .head (turns_enter hn hid indent tasks) ih
  | case5 id indent tasks st n hn convergence hid ih =>
    exact .head (by simp [Turns, turn, hn, hid, convergence]) ih

end Work

/-! ## The depth of a plan -/

/-- The depth of a task: that of the visit, or of the command. -/
def Task.depth : Task → ℕ
  | visit _ indent => indent.toNat
  | emit c => c.indent.toNat

section Indents

variable {indent : UInt32} {c : Command}

/-- The commands around a visit stand at the depth `indent`, but for the end of its block. -/
def Slot.Surrounds (indent : UInt32) (s : Slot) : Prop :=
  ∀ c ∈ s.before ++ s.after, c.indent = indent ∨ c.indent = indent + 1

lemma Slot.surrounds_block {opening : Command} {target : Option String} {closing : List Command}
    (hopening : opening.indent = indent) (hclosing : ∀ c ∈ closing, c.indent = indent) :
    (Slot.block indent opening target closing).Surrounds indent := by
  intro c hc
  simp only [block, List.singleton_append, List.mem_cons] at hc
  rcases hc with rfl | rfl | hc
  · exact .inl hopening
  · exact .inr rfl
  · exact .inl (hclosing c hc)

lemma Layout.indent_of_mem_own {l : Layout} (hhead : ∀ c ∈ l.head, c.indent = indent)
    (hslots : ∀ s ∈ l.slots, s.Surrounds indent) (hlast : ∀ c ∈ l.last, c.indent = indent)
    (h : c ∈ l.own) : c.indent = indent ∨ c.indent = indent + 1 := by
  simp only [own, List.mem_append, List.mem_flatMap] at h
  rcases h with (h | ⟨s, hs, h⟩) | h
  · exact .inl (hhead c h)
  · exact hslots s hs c (List.mem_append.2 h)
  · exact .inl (hlast c h)

lemma Layout.emit_mem_tasks {l : Layout} : .emit c ∈ l.tasks ↔ c ∈ l.own := by
  simp [tasks, own, Slot.tasks, visitAny]

lemma Layout.eq_depth_of_visit_mem_tasks {l : Layout} {id : String}
    (h : .visit id indent ∈ l.tasks) : indent = l.depth := by
  obtain ⟨s, -, -, hdepth⟩ : ∃ s ∈ l.slots, s.target = some id ∧ l.depth = indent := by
    simpa [tasks, Slot.tasks, visitAny] using h
  exact hdepth.symm

end Indents

namespace Document

variable {d : Document} {options : Options} {n : Node} {indent : UInt32} {c : Command}

/-- The commands of a node stand at the depth of the node, and those that end its blocks one level
deeper. -/
lemma indent_of_mem_layout (h : c ∈ (d.layout options n indent).own) :
    c.indent = indent ∨ n.opensBlocks ∧ c.indent = indent + 1 := by
  rw [layout] at h
  split at h
  · cases h
  · rename_i hmuted
    cases hkind : n.kind <;> rw [hkind] at h
    case start | finish | group | comment => cases h
    case action actions =>
      obtain ⟨a, -, h⟩ : ∃ a ∈ actions, c ∈ a.commands indent := by
        simpa [Layout.own, passingLayout] using h
      exact .inl (Action.isPlainAt_of_mem_commands h).indent_eq
    all_goals
      have hopens : n.opensBlocks := by simpa [Node.opensBlocks, Node.isStart, hkind] using hmuted
      refine (?_ : c.indent = indent ∨ c.indent = indent + 1).imp_right (⟨hopens, ·⟩)
    case condition condition =>
      refine Layout.indent_of_mem_own (by simp [conditionLayout]) ?_
        (by simp [conditionLayout, Command.conditionalEnd]) h
      intro s hs
      simp only [conditionLayout, List.mem_cons, List.not_mem_nil, or_false] at hs
      rcases hs with rfl | rfl <;> exact Slot.surrounds_block rfl (by simp)
    case menu m =>
      dsimp only at h
      split at h
      · refine Layout.indent_of_mem_own ?_ ?_ (by simp [dynamicMenuLayout]) h
        · intro c hc
          simp only [dynamicMenuLayout, List.mem_append, List.mem_singleton] at hc
          rcases hc with (hc | hc) | rfl
          · exact (Menu.isPlainAt_of_mem_promptCommands hc).indent_eq
          · exact (Command.isPlainAt_of_mem_script hc).indent_eq
          · rfl
        · intro s hs
          obtain ⟨route, -, rfl⟩ := List.mem_map.1 hs
          exact Slot.surrounds_block rfl (by simp [Command.conditionalEnd])
      · refine Layout.indent_of_mem_own ?_ ?_ (by simp [staticMenuLayout, Command.choiceBlockEnd]) h
        · intro c hc
          simp only [staticMenuLayout, List.mem_append, List.mem_singleton] at hc
          rcases hc with hc | rfl
          · exact (Menu.isPlainAt_of_mem_promptCommands hc).indent_eq
          · rfl
        · intro s hs
          obtain ⟨opening, target, rfl, hopening, -⟩ := isPart_staticMenuLayout hs
          exact Slot.surrounds_block hopening (by simp)

/-- The plan of a node stands at the depth of the node, or one level deeper if it opens blocks. -/
theorem depth_le_of_mem_nodePlan {t : Task}
    (h : t ∈ (Index.ofDocument d).nodePlan options n indent) :
    t.depth ≤ indent.toNat + n.opensBlocks.toNat := by
  have hlevel : ∀ {depth : UInt32}, depth = indent ∨ n.opensBlocks ∧ depth = indent + 1 →
      depth.toNat ≤ indent.toNat + n.opensBlocks.toNat := by
    rintro depth (rfl | ⟨hopens, rfl⟩)
    · exact Nat.le_add_right _ _
    · rw [hopens, UInt32.toNat_add]
      exact Nat.mod_le _ _
  rw [nodePlan_eq] at h
  cases t with
  | emit c => exact hlevel (indent_of_mem_layout (Layout.emit_mem_tasks.1 h))
  | visit id depth =>
    rw [Layout.eq_depth_of_visit_mem_tasks h]
    exact hlevel (depth_layout options n indent)

/-! ## The depth of the work -/

variable (d) in
/-- The nodes with blocks that have been entered. -/
def opened (st : Emission) : Finset String :=
  {id ∈ (st.entries.toList.map Entry.id).toFinset | (d.node? id).any Node.opensBlocks}

lemma mem_opened {st : Emission} {id : String} : id ∈ d.opened st ↔
    (∃ e ∈ st.entries, e.id = id) ∧ ∃ n, d.node? id = some n ∧ n.opensBlocks := by
  simp [opened, Option.any_eq_true]

lemma opened_revisit (st : Emission) (id : String) (indent : UInt32) (convergence : Bool) :
    d.opened (st.revisit id indent convergence) = d.opened st := by
  rw [opened, opened, Emission.entries_revisit]

/-- Entering a node that was not entered before opens its blocks. -/
lemma card_opened_enter {id : String} (hn : d.node? id = some n) {st : Emission}
    (hid : id ∉ d.opened st) (indent : UInt32) (convergence : Bool) :
    (d.opened (st.enter id indent convergence)).card =
      (d.opened st).card + n.opensBlocks.toNat := by
  have hids : ((st.enter id indent convergence).entries.toList.map Entry.id).toFinset =
      insert id (st.entries.toList.map Entry.id).toFinset := by
    ext x
    simp
  rw [opened, hids, Finset.filter_insert, hn, Option.any_some]
  cases n.opensBlocks with
  | false => rfl
  | true => exact Finset.card_insert_of_notMem hid

variable (d) in
/-- Where the compiler begins. -/
def opening : Work where
  tasks := visitAny d.entrance? 0
  done := .initial (Index.ofDocument d)

end Document

namespace Work

variable (d : Document)

/-- Nothing is deeper than the number of nodes with blocks that have been entered, and the nodes
that have been entered are not among those that are left. -/
structure Nested (w : Work) : Prop where
  /-- What is yet to do. -/
  tasks : ∀ t ∈ w.tasks, t.depth ≤ (d.opened w.done).card
  /-- What has been emitted. -/
  commands : ∀ c ∈ w.done.commands, c.indent.toNat ≤ (d.opened w.done).card
  /-- Where labels may be put in. -/
  entries : ∀ e ∈ w.done.entries, e.indent.toNat ≤ (d.opened w.done).card
  /-- What has been entered. -/
  not_mem_unvisited : ∀ e ∈ w.done.entries, e.id ∉ w.done.unvisited

namespace Nested

variable {d} {options : Options} {tasks : List Task} {st : Emission} {id : String}
  {indent : UInt32} {n : Node}

lemma opening : d.opening.Nested d where
  tasks := by
    intro t ht
    obtain ⟨id, -, rfl⟩ := List.mem_map.1 ht
    exact Nat.zero_le _
  commands := by simp [Document.opening, Emission.initial]
  entries := by simp [Document.opening, Emission.initial]
  not_mem_unvisited := by simp [Document.opening, Emission.initial]

/-- A node that is left has not opened its blocks. -/
lemma not_mem_opened {w : Work} (h : w.Nested d) (hid : id ∈ w.done.unvisited) :
    id ∉ d.opened w.done := by
  intro hopened
  obtain ⟨⟨e, he, rfl⟩, -⟩ := Document.mem_opened.1 hopened
  exact h.not_mem_unvisited e he hid

lemma skip {t : Task} (h : Nested d ⟨t :: tasks, st⟩) : Nested d ⟨tasks, st⟩ :=
  ⟨fun t ht => h.tasks t (List.mem_cons_of_mem _ ht), h.commands, h.entries, h.not_mem_unvisited⟩

lemma emit {c : Command} (h : Nested d ⟨.emit c :: tasks, st⟩) : Nested d ⟨tasks, st.emit c⟩ where
  tasks := h.skip.tasks
  commands := Array.forall_mem_push.2 ⟨h.tasks _ List.mem_cons_self, h.commands⟩
  entries := h.entries
  not_mem_unvisited := h.not_mem_unvisited

lemma revisit (h : Nested d ⟨.visit id indent :: tasks, st⟩) (convergence : Bool) :
    Nested d ⟨tasks, st.revisit id indent convergence⟩ := by
  constructor
  · rw [Document.opened_revisit]
    exact h.skip.tasks
  · -- the jump stands where the visit was to be
    rw [Document.opened_revisit, Emission.commands_revisit]
    exact Array.forall_mem_push.2 ⟨h.tasks _ List.mem_cons_self, h.commands⟩
  · rw [Document.opened_revisit, Emission.entries_revisit]
    exact h.entries
  · rw [Emission.entries_revisit, Emission.unvisited_revisit]
    exact h.not_mem_unvisited

lemma enter (h : Nested d ⟨.visit id indent :: tasks, st⟩) (hn : d.node? id = some n)
    (hid : id ∈ st.unvisited) (convergence : Bool) :
    Nested d ⟨(Index.ofDocument d).nodePlan options n indent ++ tasks,
      st.enter id indent convergence⟩ := by
  have hindent : indent.toNat ≤ (d.opened st).card := h.tasks _ List.mem_cons_self
  have hcard : (d.opened (st.enter id indent convergence)).card =
      (d.opened st).card + n.opensBlocks.toNat :=
    Document.card_opened_enter hn (h.not_mem_opened hid) indent convergence
  -- the bound grows by one if the node opens blocks, and so does the depth of what it plans
  have hgrow : (d.opened st).card ≤ (d.opened (st.enter id indent convergence)).card := by omega
  constructor
  · intro t ht
    rcases List.mem_append.1 ht with ht | ht
    · have hdepth := Document.depth_le_of_mem_nodePlan ht
      dsimp only
      omega
    · exact (h.skip.tasks t ht).trans hgrow
  · have hcommands : ∀ c ∈ st.commands,
        c.indent.toNat ≤ (d.opened (st.enter id indent convergence)).card :=
      fun c hc => (h.commands c hc).trans hgrow
    dsimp only
    rw [Emission.commands_enter]
    split
    · exact Array.forall_mem_push.2 ⟨hindent.trans hgrow, hcommands⟩
    · exact hcommands
  · rw [Emission.entries_enter]
    exact Array.forall_mem_push.2
      ⟨hindent.trans hgrow, fun e he => (h.entries e he).trans hgrow⟩
  · rw [Emission.entries_enter, Emission.unvisited_enter]
    refine Array.forall_mem_push.2 ⟨by simp, fun e he => ?_⟩
    exact fun hmem => h.not_mem_unvisited e he (Std.HashSet.mem_of_mem_erase hmem)

/-- A turn keeps everything nested. -/
theorem turn {w w' : Work} (h : w.Nested d) (hturn : Turns (Index.ofDocument d) options w w') :
    w'.Nested d := by
  cases hturn.step with
  | emit => exact h.emit
  | skip => exact h.skip
  | enter hn hid => exact h.enter (by rwa [Index.node?_ofDocument] at hn) hid _
  | revisit => exact h.revisit _

/-- Turn after turn, everything stays nested. -/
theorem reaches {w w' : Work} (h : w.Nested d)
    (hreach : ReflTransGen (Turns (Index.ofDocument d) options) w w') : w'.Nested d := by
  induction hreach with
  | refl => exact h
  | tail _ hturn ih => exact ih.turn hturn

/-- A node that is entered stands less deep than there are nodes. -/
lemma lt_length (h : Nested d ⟨.visit id indent :: tasks, st⟩) (hn : d.node? id = some n)
    (hid : id ∈ st.unvisited) : indent.toNat < d.nodes.length := by
  have hindent : indent.toNat ≤ (d.opened st).card := h.tasks _ List.mem_cons_self
  have hmem : ∀ {x : String} {n : Node}, d.node? x = some n →
      x ∈ (d.nodes.map Node.id).toFinset := by
    intro x n hx
    rw [List.mem_toFinset, ← Document.id_of_node? hx]
    exact List.mem_map_of_mem (Document.mem_nodes_of_node? hx)
  have hsubset : insert id (d.opened st) ⊆ (d.nodes.map Node.id).toFinset := by
    refine Finset.insert_subset (hmem hn) fun x hx => ?_
    obtain ⟨-, n, hx, -⟩ := Document.mem_opened.1 hx
    exact hmem hx
  calc indent.toNat < (d.opened st).card + 1 := Nat.lt_succ_of_le hindent
    _ = (insert id (d.opened st)).card :=
      (Finset.card_insert_of_notMem (h.not_mem_opened hid)).symm
    _ ≤ (d.nodes.map Node.id).toFinset.card := Finset.card_le_card hsubset
    _ ≤ d.nodes.length := by
      simpa using List.toFinset_card_le (d.nodes.map Node.id)

end Nested

end Work

/-! ## The program -/

/-- The labels that are put in at the end stand where nodes were entered. -/
lemma Emission.mem_labelled {st : Emission} {c : Command} (h : c ∈ st.labelled) :
    c ∈ st.commands ∨ ∃ e ∈ st.entries, c = .label e.indent e.id := by
  have hfold : ∀ (entries : List Entry) (cs : List Command),
      c ∈ entries.foldl (fun cs e => cs.insertIdx e.position (.label e.indent e.id)) cs →
        c ∈ cs ∨ ∃ e ∈ entries, c = .label e.indent e.id := by
    intro entries
    induction entries with
    | nil => exact fun cs => .inl
    | cons e entries ih =>
      intro cs hc
      rcases ih _ hc with hc | ⟨e', he', rfl⟩
      · rcases List.eq_or_mem_of_mem_insertIdx hc with rfl | hc
        · exact .inr ⟨e, List.mem_cons_self, rfl⟩
        · exact .inl hc
      · exact .inr ⟨e', List.mem_cons_of_mem _ he', rfl⟩
  refine (hfold _ _ h).imp Array.mem_toList_iff.1 ?_
  rintro ⟨e, he, rfl⟩
  rw [missing, List.mem_mergeSort] at he
  exact ⟨e, Array.mem_toList_iff.1 (List.mem_of_mem_filter he), rfl⟩

namespace Document

lemma compile_eq_labelled {d : Document} {options : Options} {start : Node}
    (h : d.start? = some start) :
    d.compile options = (d.finished options).labelled ++ [.stop 0] := by
  rw [compile_eq h, ← labelled_emission, finished_eq]

/-- The compiler comes to an end, and its depths stay small.  Turn after turn it comes to a state
without tasks, the only kind of state without a turn.  No command stands deeper than the number of
conditions and menus that were entered, muted ones not counted.  A node that is entered stands less
deep than there are nodes, so if these can be counted, the depth of its blocks can be counted as
well. -/
theorem turns_end_and_indent_le (d : Document) (options : Options) :
    (∀ w : Work, w.turn (Index.ofDocument d) options = none ↔ w.tasks = []) ∧
      ReflTransGen (Work.Turns (Index.ofDocument d) options) d.opening
        ⟨[], d.finished options⟩ ∧
      (∀ c ∈ d.compile options, c.indent.toNat ≤ (d.opened (d.finished options)).card) ∧
      ∀ (id : String) (indent : UInt32) (tasks : List Task) (st : Emission),
        ReflTransGen (Work.Turns (Index.ofDocument d) options) d.opening
          ⟨.visit id indent :: tasks, st⟩ →
        (d.node? id).isSome → id ∈ st.unvisited →
        indent.toNat < d.nodes.length ∧
          (d.nodes.length < 2 ^ 32 → (indent + 1).toNat = indent.toNat + 1) := by
  have hreaches : ReflTransGen (Work.Turns (Index.ofDocument d) options) d.opening
      ⟨[], d.finished options⟩ :=
    Work.reaches_run (visitAny d.entrance? 0) (.initial (Index.ofDocument d))
  refine ⟨fun w => Work.turn_eq_none_iff, hreaches, ?_, ?_⟩
  · intro c hc
    have hnested := Work.Nested.opening.reaches hreaches
    cases hstart : d.start? with
    | none =>
      rw [compile_of_start_eq_none hstart] at hc
      cases hc
    | some start =>
      rw [compile_eq_labelled hstart, List.mem_append, List.mem_singleton] at hc
      rcases hc with hc | rfl
      · rcases Emission.mem_labelled hc with hc | ⟨e, he, rfl⟩
        · exact hnested.commands c hc
        · exact hnested.entries e he
      · exact Nat.zero_le _
  · intro id indent tasks st hvisit hnode hid
    obtain ⟨n, hn⟩ := Option.isSome_iff_exists.1 hnode
    have hlt := (Work.Nested.opening.reaches hvisit).lt_length hn hid
    refine ⟨hlt, fun hcount => ?_⟩
    rw [UInt32.toNat_add, UInt32.toNat_one]
    exact Nat.mod_eq_of_lt (by omega)

/-- A dialogue with loops of all kinds: one goes back to the start, one through a block, and one
stays at a muted node.  The id of the condition is used twice. -/
def maze : Document where
  nodes := [{ id := "start", kind := .start },
    { id := "a", kind := .condition (.switch 1 true) },
    { id := "b", kind := .menu { choices := [{ id := "x", text := "Again" }] }, muted := true },
    { id := "c", kind := .menu
        { choices := [{ id := "y", text := "Back" }, { id := "z", text := "Out" }] } },
    { id := "a", kind := .finish }]
  edges := [{ id := "e0", source := "start", target := "a" },
    { id := "e1", source := "a", target := "c", handle := some "true" },
    { id := "e2", source := "a", target := "b", handle := some "false" },
    { id := "e3", source := "b", target := "b" },
    { id := "e4", source := "c", target := "a", handle := some "choice-0" },
    { id := "e5", source := "c", target := "start", handle := some "choice-1" }]

theorem turns_of_maze_end_and_indent_le :
    ReflTransGen (Work.Turns (Index.ofDocument maze) {}) maze.opening ⟨[], maze.finished {}⟩ ∧
      (∀ c ∈ maze.compile {}, c.indent.toNat ≤ (maze.opened (maze.finished {})).card) ∧
      ∃ tasks st, ReflTransGen (Work.Turns (Index.ofDocument maze) {}) maze.opening
          ⟨.visit "c" 1 :: tasks, st⟩ ∧
        (maze.node? "c").isSome ∧ "c" ∈ st.unvisited ∧ maze.nodes.length < 2 ^ 32 ∧
        ((1 : UInt32) + 1).toNat = (1 : UInt32).toNat + 1 := by
  obtain ⟨-, hend, hcommands, hdepth⟩ := turns_end_and_indent_le maze {}
  have hcount : maze.nodes.length < 2 ^ 32 := by decide
  have hleft : ∀ {id}, (maze.node? id).isSome →
      id ∈ (Emission.initial (Index.ofDocument maze)).unvisited := mem_allIds.2
  -- the first turn enters the condition, the second one opens its block
  have hfirst : Work.Turns (Index.ofDocument maze) {} maze.opening ⟨_, _⟩ :=
    Work.turns_enter (Index.node?_ofDocument maze "a") (hleft rfl) 0 []
  rw [nodePlan_eq] at hfirst
  have hreaches : ReflTransGen (Work.Turns (Index.ofDocument maze) {}) maze.opening
      ⟨.visit "c" 1 :: _, _⟩ := .tail (.single hfirst) rfl
  have hc : "c" ∈ ((Emission.initial (Index.ofDocument maze)).enter "a" 0
      ((Index.ofDocument maze).isConvergence "a")).unvisited := by
    rw [Emission.unvisited_enter, Std.HashSet.mem_erase]
    exact ⟨by decide, hleft rfl⟩
  obtain ⟨-, hnext⟩ := hdepth _ _ _ _ hreaches rfl hc
  exact ⟨hend, hcommands, _, _, hreaches, rfl, hc, hcount, hnext hcount⟩

end Document

end Dialogue
