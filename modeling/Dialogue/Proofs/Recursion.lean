import Mathlib.Data.Finset.Insert
import Dialogue.Proofs.Jumps
/-!
The compiler as a recursion.

What a program is can be told without tasks: to emit a node, write a jump if it was visited before;
otherwise write its label if several edges enter it, and then what its kind asks for, where the
nodes behind its outlets are emitted right at their places.  `Document.emit` is this recursion.  It
threads one draft through all calls, from left to right, and it is written down without saying why
it ends.

The compiler, which keeps a list of tasks instead of calling itself, does the same
(`compile_eq_draft`).  A list of tasks matches a part of the recursion (`Matches`) if working it off
changes the state of the compiler as that part changes the draft, whatever tasks follow; so the
parts can be put together as the plans are.  That the recursion ends is part of it: a call for a new
node has one node less that it can enter.
-/

namespace Dialogue

/-! ## The recursion -/

/-- What has been written so far. -/
structure Draft where
  /-- The commands. -/
  commands : List Command := []
  /-- The nodes that have been visited. -/
  visited : Finset String := ∅
  /-- The nodes that need a label. -/
  needsLabel : Finset String := ∅
  /-- Where the nodes begin, in the order of the visits. -/
  entries : List Entry := []

/-- A part of the recursion.  It may fail to end, and then there is no draft. -/
abbrev Drafting := StateT Draft Option

namespace Drafting

/-- Writes commands. -/
def write (cs : List Command) : Drafting Unit :=
  modify fun s => { s with commands := s.commands ++ cs }

/-- Notes that a node needs a label. -/
def require (id : String) : Drafting Unit :=
  modify fun s => { s with needsLabel := insert id s.needsLabel }

/-- Notes that a node is visited for the first time, and where it begins. -/
def enter (id : String) (indent : UInt32) : Drafting Unit :=
  modify fun s =>
    { s with
      visited := insert id s.visited
      entries := s.entries ++ [⟨id, s.commands.length, indent⟩] }

end Drafting

namespace Document

open Drafting

mutual

/-- Emits the node to which an outlet leads. -/
def emit (d : Document) (options : Options) (target : Option String) (indent : UInt32) :
    Drafting Unit := do
  let some n := d.nodeAt? target | return
  let convergence : Bool := 1 < (d.incoming n.id).length
  if n.id ∈ (← get).visited then
    if convergence && 0 < indent then
      -- the branches of a block meet again
      write [.jumpToLabel indent n.id]
    else
      require n.id
      write [.jumpToLabel indent n.id]
  else
    enter n.id indent
    if convergence then
      write [.label indent n.id]
      require n.id
    if n.muted && !n.isStart then d |>.emit options (d.bypass? n) indent
    else d |>.emitKind options n indent
partial_fixpoint

/-- Emits a node that was not visited before and is not muted. -/
def emitKind (d : Document) (options : Options) (n : Node) (indent : UInt32) : Drafting Unit := do
  match n.kind with
  | .start => d |>.emit options (d.firstTarget? n.id) indent
  | .action actions =>
    actions.forM fun a => write (a.commands indent)
    d |>.emit options (d.firstTarget? n.id) indent
  | .condition condition =>
    write [.conditionalBranch indent condition.expression]
    d |>.emit options (d.targetAt? n.id trueHandle) (indent + 1)
    write [.stop (indent + 1)]
    write [.conditionalElse indent]
    d |>.emit options (d.targetAt? n.id falseHandle) (indent + 1)
    write [.stop (indent + 1)]
    write [.conditionalEnd indent]
  | .menu m =>
    write (m.promptCommands indent)
    if m.isDynamic then d |>.emitDynamicMenu options n.id m indent
    else d |>.emitStaticMenu options n.id m indent
  | .finish | .group | .comment => return
partial_fixpoint

/-- Emits a menu whose choices are always the same. -/
def emitStaticMenu (d : Document) (options : Options) (id : String) (m : Menu) (indent : UInt32) :
    Drafting Unit := do
  write [.showChoices indent (m.choices.map Choice.text) (m.cancel.code m.choices.length) 0
    m.position m.background]
  m.choices.zipIdx.forM fun (c, i) => do
    write [.choiceBranch indent i c.text]
    d |>.emit options (d.targetAt? id (choiceHandle i)) (indent + 1)
    write [.stop (indent + 1)]
  if m.cancel = .branch then
    write [.choiceCancel indent]
    d |>.emit options (d.targetAt? id cancelHandle) (indent + 1)
    write [.stop (indent + 1)]
  write [.choiceBlockEnd indent]
partial_fixpoint

/-- Emits a menu whose choices depend on the state of the game: the script that fills the window,
the window, and a test for each selection. -/
def emitDynamicMenu (d : Document) (options : Options) (id : String) (m : Menu) (indent : UInt32) :
    Drafting Unit := do
  write (Command.script indent (m.script options.disabledMark))
  write [.showChoices indent [] (m.cancel.code 0) 0 m.position m.background]
  (List.range m.choices.length).forM fun i => do
    write [.conditionalBranch indent (selectionCondition (Int64.ofNat i)).expression]
    d |>.emit options (d.targetAt? id (choiceHandle i)) (indent + 1)
    write [.stop (indent + 1)]
    write [.conditionalEnd indent]
  if m.cancel = .branch then
    write [.conditionalBranch indent (selectionCondition cancelledChoice).expression]
    d |>.emit options (d.targetAt? id cancelHandle) (indent + 1)
    write [.stop (indent + 1)]
    write [.conditionalEnd indent]
partial_fixpoint

end

end Document

/-- The entries of the nodes that need a label and got none when they were entered. -/
def Draft.missing (d : Document) (s : Draft) : List Entry :=
  s.entries.filter fun e => e.id ∈ s.needsLabel ∧ ¬1 < (d.incoming e.id).length

/-- The commands of a draft, with the labels that are missing, each where its node begins.  Working
backwards keeps the positions right. -/
def Draft.labelled (d : Document) (s : Draft) : List Command :=
  (s.missing d).foldr (fun e cs => cs.insertIdx e.position (.label e.indent e.id)) s.commands

/-! ## Tasks and the recursion -/

/-- The state of the compiler and a draft say the same. -/
structure Mirrors (d : Document) (st : Emission) (s : Draft) : Prop where
  commands : st.commands.toList = s.commands
  visited : ∀ x, x ∈ s.visited ↔ (d.node? x).isSome ∧ x ∉ st.unvisited
  needsLabel : ∀ x, x ∈ s.needsLabel ↔ x ∈ st.wanted
  labeled : ∀ x, x ∈ st.labeled ↔ x ∈ s.visited ∧ 1 < (d.incoming x).length
  entries : st.entries.toList = s.entries
  entered : ∀ e ∈ s.entries, e.id ∈ s.visited

namespace Mirrors

variable {d : Document} {st : Emission} {s : Draft}

lemma initial (d : Document) : Mirrors d (.initial (Index.ofDocument d)) {} where
  commands := rfl
  visited x := by
    have hall : x ∈ (Emission.initial (Index.ofDocument d)).unvisited ↔ (d.node? x).isSome :=
      Document.mem_allIds
    rw [hall]
    exact ⟨fun hx => absurd hx (Finset.notMem_empty x), fun hx => absurd hx.1 hx.2⟩
  needsLabel x := by simp [Emission.initial]
  labeled x := by simp [Emission.initial]
  entries := rfl
  entered := nofun

lemma mem_unvisited (h : Mirrors d st s) {n : Node} (hn : d.node? n.id = some n) :
    n.id ∈ st.unvisited ↔ n.id ∉ s.visited := by
  rw [h.visited, hn]
  simp

lemma emit (h : Mirrors d st s) (c : Command) :
    Mirrors d (st.emit c) { s with commands := s.commands ++ [c] } where
  commands := by simp [Emission.emit, h.commands]
  visited := h.visited
  needsLabel := h.needsLabel
  labeled := h.labeled
  entries := h.entries
  entered := h.entered

end Mirrors

/-- Working off `tasks` changes the state of the compiler as `p` changes the draft, if at most
`bound` nodes can still be entered. -/
def Matches (d : Document) (options : Options) (bound : ℕ) (tasks : List Task)
    (p : Drafting Unit) : Prop :=
  ∀ st s rest, Mirrors d st s → st.unvisited.size ≤ bound →
    ∃ st' s', p s = some ((), s') ∧ Mirrors d st' s' ∧ st'.unvisited.size ≤ st.unvisited.size ∧
      Emission.run (Index.ofDocument d) options (tasks ++ rest) st =
        Emission.run (Index.ofDocument d) options rest st'

namespace Matches

variable {d : Document} {options : Options} {bound : ℕ} {tasks tasks' : List Task}
  {p q : Drafting Unit}

lemma nothing : Matches d options bound [] (pure ()) :=
  fun st s _ h _ => ⟨st, s, rfl, h, Nat.le_refl _, rfl⟩

lemma append (hp : Matches d options bound tasks p) (hq : Matches d options bound tasks' q) :
    Matches d options bound (tasks ++ tasks') (p >>= fun _ => q) := by
  intro st s rest hmirrors hbound
  obtain ⟨st₁, s₁, hp', hmirrors₁, hsize₁, hrun₁⟩ := hp st s (tasks' ++ rest) hmirrors hbound
  obtain ⟨st₂, s₂, hq', hmirrors₂, hsize₂, hrun₂⟩ := hq st₁ s₁ rest hmirrors₁ (by omega)
  refine ⟨st₂, s₂, ?_, hmirrors₂, by omega, ?_⟩
  · change (p s >>= fun r => q r.2) = _
    rw [hp']
    exact hq'
  · rw [List.append_assoc, hrun₁, hrun₂]

lemma write (cs : List Command) :
    Matches d options bound (cs.map .emit) (Drafting.write cs) := by
  intro st s rest hmirrors hbound
  induction cs generalizing st s with
  | nil =>
    refine ⟨st, s, ?_, hmirrors, Nat.le_refl _, rfl⟩
    change some ((), { s with commands := s.commands ++ [] }) = _
    rw [List.append_nil]
  | cons c cs ih =>
    obtain ⟨st', s', hwrite, hmirrors', hsize, hrun⟩ := ih _ _ (hmirrors.emit c) hbound
    refine ⟨st', s', ?_, hmirrors', hsize, ?_⟩
    · rw [← hwrite]
      change some ((), { s with commands := s.commands ++ c :: cs }) =
        some ((), { s with commands := s.commands ++ [c] ++ cs })
      rw [List.append_assoc]
      rfl
    · rw [List.map_cons, List.cons_append, Emission.run]
      exact hrun

lemma forM {α : Type} {f : α → List Task} {g : α → Drafting Unit} {xs : List α}
    (h : ∀ x ∈ xs, Matches d options bound (f x) (g x)) :
    Matches d options bound (xs.flatMap f) (xs.forM g) := by
  induction xs with
  | nil => exact nothing
  | cons x xs ih =>
    rw [List.flatMap_cons]
    exact (h x List.mem_cons_self).append (ih fun y hy => h y (List.mem_cons_of_mem _ hy))

end Matches

/-! ## The compiler follows the recursion -/

namespace Mirrors

variable {d : Document} {st : Emission} {s : Draft}

/-- Visiting a node again. -/
lemma revisit (h : Mirrors d st s) (id : String) (indent : UInt32) :
    Mirrors d (st.revisit id indent ((Index.ofDocument d).isConvergence id))
      { s with
        commands := s.commands ++ [.jumpToLabel indent id]
        needsLabel := if 1 < (d.incoming id).length && 0 < indent then s.needsLabel
          else insert id s.needsLabel } where
  commands := by simp [h.commands]
  visited x := by
    rw [Emission.unvisited_revisit]
    exact h.visited x
  needsLabel x := by
    rw [Emission.wanted_revisit, Index.isConvergence_ofDocument]
    dsimp only
    split
    · exact h.needsLabel x
    · rw [Finset.mem_insert, Std.HashSet.mem_insert, h.needsLabel, beq_iff_eq]
      exact or_congr_left eq_comm
  labeled x := by
    rw [Emission.labeled_revisit]
    exact h.labeled x
  entries := by
    rw [Emission.entries_revisit]
    exact h.entries
  entered := h.entered

/-- Visiting a node for the first time. -/
lemma enter (h : Mirrors d st s) {n : Node} (hn : d.node? n.id = some n) (indent : UInt32) :
    Mirrors d (st.enter n.id indent ((Index.ofDocument d).isConvergence n.id))
      { commands := if 1 < (d.incoming n.id).length then s.commands ++ [.label indent n.id]
          else s.commands
        visited := insert n.id s.visited
        needsLabel := if 1 < (d.incoming n.id).length then insert n.id s.needsLabel
          else s.needsLabel
        entries := s.entries ++ [⟨n.id, s.commands.length, indent⟩] } where
  commands := by
    rw [Emission.commands_enter, Index.isConvergence_ofDocument]
    simp only [decide_eq_true_eq]
    split <;> simp [h.commands]
  visited x := by
    rw [Emission.unvisited_enter, Finset.mem_insert, h.visited, Std.HashSet.mem_erase]
    by_cases hx : x = n.id
    · simp [hx, hn]
    · simp [hx, Ne.symm hx]
  needsLabel x := by
    rw [Emission.wanted_enter, Index.isConvergence_ofDocument]
    simp only [decide_eq_true_eq]
    split
    · rw [Finset.mem_insert, Std.HashSet.mem_insert, h.needsLabel, beq_iff_eq]
      exact or_congr_left eq_comm
    · exact h.needsLabel x
  labeled x := by
    rw [Emission.labeled_enter, Index.isConvergence_ofDocument]
    simp only [decide_eq_true_eq]
    by_cases hx : x = n.id
    · subst hx
      split <;> simp_all [h.labeled]
    · have hx' : n.id ≠ x := Ne.symm hx
      split <;> simp [h.labeled, hx, hx']
  entries := by
    rw [Emission.entries_enter]
    simp [h.entries, ← h.commands]
  entered e he := by
    rcases List.mem_append.1 he with he | he
    · exact Finset.mem_insert_of_mem (h.entered e he)
    · obtain rfl := List.mem_singleton.1 he
      exact Finset.mem_insert_self _ _

/-- The labels that are put in at the end are the same, if there is one of them at most. -/
lemma labelled_eq (h : Mirrors d st s) (hone : st.missing.length ≤ 1) :
    st.labelled = s.labelled d := by
  have hlacks : s.entries.filter (fun e => st.wanted.contains e.id && !st.labeled.contains e.id) =
      s.missing d := by
    refine List.filter_congr fun e he => ?_
    have hlabeled := h.labeled e.id
    rw [and_iff_right (h.entered e he)] at hlabeled
    rw [Bool.eq_iff_iff, decide_eq_true_eq, h.needsLabel, ← hlabeled]
    simp
  rw [Emission.missing, List.length_mergeSort, h.entries, hlacks] at hone
  rw [Emission.labelled, Emission.missing, h.entries, hlacks, h.commands, Draft.labelled]
  -- one label or none can be put in from either end
  generalize s.missing d = missing at hone ⊢
  rcases missing with _ | ⟨e, _ | ⟨e', es⟩⟩
  · simp
  · simp
  · simp at hone

end Mirrors

namespace Document

variable {d : Document} {options : Options}

lemma emit_dead {target : Option String} (h : d.nodeAt? target = none) (indent : UInt32) :
    d.emit options target indent = pure () := by
  rw [emit, h]

lemma emit_again {target : Option String} {n : Node} (h : d.nodeAt? target = some n)
    (indent : UInt32) {s : Draft} (hs : n.id ∈ s.visited) :
    d.emit options target indent s =
      some ((), { s with
        commands := s.commands ++ [.jumpToLabel indent n.id]
        needsLabel := if 1 < (d.incoming n.id).length && 0 < indent then s.needsLabel
          else insert n.id s.needsLabel }) := by
  rw [emit, h]
  change (ite (n.id ∈ s.visited) _ _ : Drafting Unit) s = _
  rw [if_pos hs]
  by_cases hjump : (decide (1 < (d.incoming n.id).length) && decide (0 < indent)) = true
  · rw [if_pos hjump, if_pos hjump]
    rfl
  · rw [if_neg hjump, if_neg hjump]
    rfl

lemma emit_first {target : Option String} {n : Node} (h : d.nodeAt? target = some n)
    (indent : UInt32) {s : Draft} (hs : n.id ∉ s.visited) :
    d.emit options target indent s =
      (if n.muted && !n.isStart then d.emit options (d.bypass? n) indent
        else d.emitKind options n indent)
      { commands := if 1 < (d.incoming n.id).length then s.commands ++ [.label indent n.id]
          else s.commands
        visited := insert n.id s.visited
        needsLabel := if 1 < (d.incoming n.id).length then insert n.id s.needsLabel
          else s.needsLabel
        entries := s.entries ++ [⟨n.id, s.commands.length, indent⟩] } := by
  rw [emit, h]
  change (ite (n.id ∈ s.visited) _ _ : Drafting Unit) s = _
  rw [if_neg hs]
  by_cases hconv : 1 < (d.incoming n.id).length
  · simp only [hconv, decide_true, if_true]
    rfl
  · simp only [hconv, decide_false, Bool.false_eq_true, if_false]
    rfl

section Kinds

variable {bound : ℕ} (hemit : ∀ target indent,
  Matches d options bound (visitAny target indent) (d.emit options target indent))

include hemit

/-- A visit inside of a block. -/
lemma matches_block (target : Option String) (indent : UInt32) :
    Matches d options bound (blockBody target indent)
      (d.emit options target (indent + 1) >>= fun _ => Drafting.write [.stop (indent + 1)]) :=
  (hemit target (indent + 1)).append (.write _)

lemma matches_staticMenu (id : String) (m : Menu) (indent : UInt32) :
    Matches d options bound ((Index.ofDocument d).staticMenuPlan id m indent)
      (d.emitStaticMenu options id m indent) := by
  have hchoices : Matches d options bound
      (m.choices.zipIdx.flatMap fun x => .emit (.choiceBranch indent x.2 x.1.text) ::
        blockBody (d.targetAt? id (choiceHandle x.2)) indent) _ :=
    .forM fun x _ => (Matches.write [_]).append (matches_block hemit _ indent)
  have hplan : (Index.ofDocument d).staticMenuPlan id m indent =
      [m.window indent].map .emit ++
        ((m.choices.zipIdx.flatMap fun x => .emit (.choiceBranch indent x.2 x.1.text) ::
          blockBody (d.targetAt? id (choiceHandle x.2)) indent) ++
        ((if m.cancel = .branch then .emit (.choiceCancel indent) ::
            blockBody (d.targetAt? id cancelHandle) indent else []) ++
        [.choiceBlockEnd indent].map .emit)) := by
    simp only [Index.staticMenuPlan, Index.targetAt?_ofDocument, List.mapIdx_eq_zipIdx_map,
      List.flatMap_def, Menu.window]
    cases m.cancel <;> simp
  rw [emitStaticMenu, hplan]
  refine .append (.write _) (.append hchoices ?_)
  by_cases hcancel : m.cancel = .branch
  · have hblock : .emit (.choiceCancel indent) :: blockBody (d.targetAt? id cancelHandle) indent ++
        [.choiceBlockEnd indent].map .emit =
        [.choiceCancel indent].map .emit ++ (visitAny (d.targetAt? id cancelHandle) (indent + 1) ++
          ([.stop (indent + 1)].map .emit ++ [.choiceBlockEnd indent].map .emit)) := by
      simp [blockBody]
    rw [if_pos hcancel, if_pos hcancel, hblock]
    exact .append (.write _) (.append (hemit _ _) (.append (.write _) (.write _)))
  · rw [if_neg hcancel, if_neg hcancel]
    exact .write _

lemma matches_dynamicMenu (id : String) (m : Menu) (indent : UInt32) :
    Matches d options bound ((Index.ofDocument d).dynamicMenuPlan options id m indent)
      (d.emitDynamicMenu options id m indent) := by
  have hselection : ∀ selection target, Matches d options bound
      (Index.selectionPlan selection target indent) (do
        Drafting.write [.conditionalBranch indent (selectionCondition selection).expression]
        d.emit options target (indent + 1)
        Drafting.write [.stop (indent + 1)]
        Drafting.write [.conditionalEnd indent]) := by
    intro selection target
    have hplan : Index.selectionPlan selection target indent =
        [.conditionalBranch indent (selectionCondition selection).expression].map .emit ++
          (visitAny target (indent + 1) ++
          ([.stop (indent + 1)].map .emit ++ [.conditionalEnd indent].map .emit)) := by
      simp [Index.selectionPlan, blockBody]
    rw [hplan]
    exact .append (.write _) (.append (hemit _ _) (.append (.write _) (.write _)))
  have hplan : (Index.ofDocument d).dynamicMenuPlan options id m indent =
      (Command.script indent (m.script options.disabledMark)).map .emit ++
        ([m.emptyWindow indent].map .emit ++
        (((List.range m.choices.length).flatMap fun i => Index.selectionPlan (Int64.ofNat i)
          (d.targetAt? id (choiceHandle i)) indent) ++
        if m.cancel = .branch then
          Index.selectionPlan cancelledChoice (d.targetAt? id cancelHandle) indent else [])) := by
    simp only [Index.dynamicMenuPlan, Index.targetAt?_ofDocument, mapIdx_eq_map_range,
      List.flatMap_def, Menu.emptyWindow]
    cases m.cancel <;> simp
  rw [emitDynamicMenu, hplan]
  refine .append (.write _) (.append (.write _) (.append (.forM fun i _ => hselection _ _) ?_))
  by_cases hcancel : m.cancel = .branch
  · rw [if_pos hcancel, if_pos hcancel]
    exact hselection _ _
  · rw [if_neg hcancel, if_neg hcancel]
    exact .nothing

lemma matches_kind (n : Node) (indent : UInt32) :
    Matches d options bound ((Index.ofDocument d).kindPlan options n.id n.kind indent)
      (d.emitKind options n indent) := by
  unfold Index.kindPlan
  rw [emitKind]
  cases n.kind with
  | start =>
    rw [Index.firstTarget?_ofDocument]
    exact hemit _ _
  | action actions =>
    have hactions : Matches d options bound
        (actions.flatMap fun a => (a.commands indent).map Task.emit) _ :=
      .forM fun a _ => .write (a.commands indent)
    dsimp only
    rw [Index.firstTarget?_ofDocument, List.map_flatMap]
    exact hactions.append (hemit _ _)
  | condition condition =>
    have hplan : (Index.ofDocument d).conditionPlan n.id condition indent =
        [.conditionalBranch indent condition.expression].map .emit ++
          (visitAny (d.targetAt? n.id trueHandle) (indent + 1) ++
          ([.stop (indent + 1)].map .emit ++ ([.conditionalElse indent].map .emit ++
          (visitAny (d.targetAt? n.id falseHandle) (indent + 1) ++
          ([.stop (indent + 1)].map .emit ++ [.conditionalEnd indent].map .emit))))) := by
      simp [Index.conditionPlan, blockBody]
    dsimp only
    rw [hplan]
    exact .append (.write _) <| .append (hemit _ _) <| .append (.write _) <| .append (.write _) <|
      .append (hemit _ _) <| .append (.write _) (.write _)
  | menu m =>
    dsimp only
    rw [menuPlan_eq]
    refine .append (.write _) ?_
    split
    · exact matches_dynamicMenu hemit n.id m indent
    · exact matches_staticMenu hemit n.id m indent
  | finish => exact .nothing
  | group => exact .nothing
  | comment => exact .nothing

end Kinds

/-- A visit of the compiler is a call of the recursion.  The induction is on the number of nodes
that can still be entered: a call for a new node leaves one less to the calls inside of it. -/
theorem matches_emit (bound : ℕ) : ∀ target indent,
    Matches d options bound (visitAny target indent) (d.emit options target indent) := by
  induction bound using Nat.strong_induction_on with
  | _ bound ih =>
    intro target indent st s rest hmirrors hbound
    cases htarget : d.nodeAt? target with
    | none =>
      refine ⟨st, s, ?_, hmirrors, Nat.le_refl _, Emission.run_visit_dead htarget indent rest st⟩
      rw [emit_dead htarget]
      rfl
    | some n =>
      have hn := (nodeAt?_eq_some htarget).2
      by_cases hvisited : n.id ∈ s.visited
      · have hnot : n.id ∉ st.unvisited := by
          rw [hmirrors.mem_unvisited hn]
          exact not_not_intro hvisited
        refine ⟨_, _, emit_again htarget indent hvisited, hmirrors.revisit n.id indent, ?_,
          Emission.run_visit_jump htarget indent rest hnot⟩
        rw [Emission.unvisited_revisit]
      · have hmem : n.id ∈ st.unvisited := (hmirrors.mem_unvisited hn).2 hvisited
        have hsize := IdSet.size_erase_add_one hmem
        rw [← Emission.unvisited_enter st n.id indent ((Index.ofDocument d).isConvergence n.id)]
          at hsize
        have hplan : Matches d options (bound - 1) ((Index.ofDocument d).nodePlan options n indent)
            (if n.muted && !n.isStart then d.emit options (d.bypass? n) indent
              else d.emitKind options n indent) := by
          rw [Index.nodePlan]
          split
          · rw [Index.bypass?_ofDocument]
            exact ih _ (by omega) _ _
          · exact matches_kind (ih _ (by omega)) n indent
        obtain ⟨st', s', hbody, hmirrors', hsize', hrun⟩ :=
          hplan _ _ rest (hmirrors.enter hn indent) (by omega)
        refine ⟨st', s', ?_, hmirrors', by omega, ?_⟩
        · rw [emit_first htarget indent hvisited]
          exact hbody
        · rw [Emission.run_visit_enter htarget indent rest hmem, ← nodePlan_eq]
          exact hrun

lemma length_missing_le : (d.finished options).missing.length ≤ 1 := by
  rw [finished_eq]
  cases h : d.nodeAt? d.entrance? with
  | none =>
    rw [emission, items_of_dead_entrance h]
    simp [Emission.missing, Emission.initial]
  | some n =>
    rw [missing_emission h]
    split <;> simp

/-- A program is what the recursion writes, with the labels that are missing, and the end; there is
none without a node at which the dialogue begins.  The recursion ends, and it leaves the same
visited nodes, nodes that need a label and entries as the compiler. -/
theorem compile_eq_draft (d : Document) (options : Options) :
    match d.start? with
    | none => d.compile options = []
    | some start => ∃ s : Draft,
        (d.emit options (d.firstTarget? start.id) 0).run {} = some ((), s) ∧
          d.compile options = s.labelled d ++ [.stop 0] ∧ Mirrors d (d.finished options) s := by
  cases hstart : d.start? with
  | none => exact compile_of_start_eq_none hstart
  | some start =>
    have hentrance : d.entrance? = d.firstTarget? start.id := by simp [entrance?, hstart]
    obtain ⟨st, s, hemit, hmirrors, -, hrun⟩ := @matches_emit d options _ d.entrance? 0
      (.initial (Index.ofDocument d)) {} [] (.initial d) (Nat.le_refl _)
    have hfinished : d.finished options = st := by
      rw [finished]
      simpa [Emission.run] using hrun
    rw [← hfinished] at hmirrors
    refine ⟨s, hentrance ▸ hemit, ?_, hmirrors⟩
    rw [compile_eq hstart, ← labelled_emission, ← finished_eq,
      hmirrors.labelled_eq length_missing_le]

end Document

end Dialogue
