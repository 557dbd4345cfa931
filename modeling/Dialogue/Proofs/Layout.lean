import Mathlib.Data.List.Basic
import Mathlib.Tactic.Common
import Dialogue.Compile.Emission
/-!
Where a dialogue goes on, and the layout of a node.

The outlets of a node are the places to which the dialogue can go from it, in the order in which
the compiler looks at them; they are read off the document.  The layout of a node is its plan with
the visits taken out: what stands at the head, then one slot for each outlet, with the commands that
stand right before and right after what fills it, then what stands last.  A plan is its layout
spelled out (`nodePlan_eq`), so everything that is said below about plans is said about layouts.
-/

namespace Dialogue

/-! ## Outlets -/

/-- The outlets of a menu, each with the value that stands for it and its handle: one for each
choice, and one for cancelling if that is a branch. -/
def Menu.routes (m : Menu) : List (Int64 × String) :=
  (List.range m.choices.length).map (fun i => (Int64.ofNat i, choiceHandle i)) ++
    match m.cancel with
    | .branch => [(cancelledChoice, cancelHandle)]
    | .disallow | .lastChoice => []

namespace Document

variable (d : Document)

/-- Where the first edge that leaves `id` leads. -/
def firstTarget? (id : String) : Option String :=
  (d.outgoing id).head?.map Edge.target

/-- Where the first edge at the outlet `handle` of `id` leads. -/
def targetAt? (id handle : String) : Option String :=
  ((d.outgoing id).find? (·.handle == some handle)).map Edge.target

/-- Where the dialogue goes on if a node is muted. -/
def bypass? (n : Node) : Option String :=
  match n.kind with
  | .condition _ => (d.targetAt? n.id trueHandle).or (d.firstTarget? n.id)
  | .menu _ => (d.targetAt? n.id (choiceHandle 0)).or (d.firstTarget? n.id)
  | .action _ | .finish => d.firstTarget? n.id
  | .start | .group | .comment => none

/-- The places to which the dialogue can go from a node, in order.  An outlet without an edge leads
nowhere. -/
def outlets (n : Node) : List (Option String) :=
  if n.muted && !n.isStart then [d.bypass? n]
  else match n.kind with
    | .start | .action _ => [d.firstTarget? n.id]
    | .condition _ => [d.targetAt? n.id trueHandle, d.targetAt? n.id falseHandle]
    | .menu m => m.routes.map fun route => d.targetAt? n.id route.2
    | .finish | .group | .comment => []

/-- The node to which an outlet leads, if there is one. -/
def nodeAt? (target : Option String) : Option Node :=
  target.bind d.node?

/-- Where the dialogue begins: behind the first node that says so. -/
def entrance? : Option String :=
  d.start?.bind fun start => d.firstTarget? start.id

variable {d}

lemma id_of_node? {id : String} {n : Node} (h : d.node? id = some n) : n.id = id := by
  simpa using List.find?_some h

lemma nodeAt?_eq_some {target : Option String} {n : Node} (h : d.nodeAt? target = some n) :
    target = some n.id ∧ d.node? n.id = some n := by
  obtain ⟨id, rfl, hid⟩ := Option.bind_eq_some_iff.1 h
  obtain rfl := id_of_node? hid
  exact ⟨rfl, hid⟩

lemma mem_nodes_of_node? {id : String} {n : Node} (h : d.node? id = some n) : n ∈ d.nodes :=
  List.mem_of_find?_eq_some h

end Document

namespace Index

@[simp] lemma firstTarget?_ofDocument (d : Document) (id : String) :
    (ofDocument d).firstTarget? id = d.firstTarget? id := by
  simp [firstTarget?, Document.firstTarget?]

@[simp] lemma targetAt?_ofDocument (d : Document) (id handle : String) :
    (ofDocument d).targetAt? id handle = d.targetAt? id handle := by
  simp [targetAt?, edgeAt?, Document.targetAt?]

@[simp] lemma bypass?_ofDocument (d : Document) (n : Node) :
    (ofDocument d).bypass? n = d.bypass? n := by
  rw [bypass?, Document.bypass?]
  cases n.kind <;> simp

end Index

/-! ## Layouts -/

/-- What stands around the visit that an outlet of a node stands for. -/
structure Slot where
  /-- The commands before the visit. -/
  before : List Command
  /-- Where the outlet leads. -/
  target : Option String
  /-- The commands after the visit. -/
  after : List Command

/-- The slot of an outlet inside a block that `opening` opens at depth `indent`. -/
def Slot.block (indent : UInt32) (opening : Command) (target : Option String)
    (closing : List Command := []) : Slot :=
  ⟨[opening], target, .stop (indent + 1) :: closing⟩

/-- What stands at a node: some commands, a slot for each outlet, and some commands. -/
structure Layout where
  /-- The commands before the first slot. -/
  head : List Command := []
  /-- The slots, in order. -/
  slots : List Slot := []
  /-- The commands behind the last slot. -/
  last : List Command := []
  /-- The depth at which the outlets are visited. -/
  depth : UInt32

/-- The commands of a layout. -/
def Layout.own (l : Layout) : List Command :=
  l.head ++ l.slots.flatMap (fun s => s.before ++ s.after) ++ l.last

/-- The tasks of a slot that is visited at `depth`. -/
def Slot.tasks (depth : UInt32) (s : Slot) : List Task :=
  s.before.map .emit ++ visitAny s.target depth ++ s.after.map .emit

/-- The tasks of a layout. -/
def Layout.tasks (l : Layout) : List Task :=
  l.head.map .emit ++ l.slots.flatMap (Slot.tasks l.depth) ++ l.last.map .emit

/-- Whether a node opens blocks: a condition or a menu that is not passed over. -/
def Node.opensBlocks (n : Node) : Bool :=
  !n.muted && match n.kind with
    | .condition _ | .menu _ => true
    | .start | .action _ | .finish | .group | .comment => false

/-- The commands of what is said before a menu. -/
def Menu.promptCommands (m : Menu) (indent : UInt32) : List Command :=
  match m.prompt with
  | some message => message.commands indent
  | none => []

/-- The command that opens the window of a menu with fixed choices. -/
def Menu.window (m : Menu) (indent : UInt32) : Command :=
  .showChoices indent (m.choices.map Choice.text) (m.cancel.code m.choices.length) 0 m.position
    m.background

/-- The command that opens the window of a menu whose choices a script sets up. -/
def Menu.emptyWindow (m : Menu) (indent : UInt32) : Command :=
  .showChoices indent [] (m.cancel.code 0) 0 m.position m.background

namespace Document

variable (d : Document)

/-- The layout of a node that passes the dialogue on without a block. -/
def passingLayout (head : List Command) (target : Option String) (indent : UInt32) : Layout where
  head := head
  slots := [⟨[], target, []⟩]
  depth := indent

/-- The layout of a condition. -/
def conditionLayout (id : String) (condition : Condition) (indent : UInt32) : Layout where
  slots := [.block indent (.conditionalBranch indent condition.expression)
      (d.targetAt? id trueHandle),
    .block indent (.conditionalElse indent) (d.targetAt? id falseHandle)]
  last := [.conditionalEnd indent]
  depth := indent + 1

/-- The slots of the choices of a menu with fixed choices; the first of them has number `i`. -/
def choiceSlots (id : String) (indent : UInt32) (i : Nat) : List Choice → List Slot
  | [] => []
  | c :: cs =>
    .block indent (.choiceBranch indent i c.text) (d.targetAt? id (choiceHandle i)) ::
      choiceSlots id indent (i + 1) cs

/-- The slot for cancelling a menu with fixed choices. -/
def cancelSlots (id : String) (m : Menu) (indent : UInt32) : List Slot :=
  match m.cancel with
  | .branch => [.block indent (.choiceCancel indent) (d.targetAt? id cancelHandle)]
  | .disallow | .lastChoice => []

/-- The layout of a menu with fixed choices. -/
def staticMenuLayout (id : String) (m : Menu) (indent : UInt32) : Layout where
  head := m.promptCommands indent ++ [m.window indent]
  slots := d.choiceSlots id indent 0 m.choices ++ d.cancelSlots id m indent
  last := [.choiceBlockEnd indent]
  depth := indent + 1

/-- The slot that is filled if the player took the choice `selection`. -/
def selectionSlot (indent : UInt32) (selection : Int64) (target : Option String) : Slot :=
  .block indent (.conditionalBranch indent (selectionCondition selection).expression) target
    [.conditionalEnd indent]

/-- The layout of a menu whose choices a script sets up. -/
def dynamicMenuLayout (options : Options) (id : String) (m : Menu) (indent : UInt32) : Layout where
  head := m.promptCommands indent ++ Command.script indent (m.script options.disabledMark) ++
    [m.emptyWindow indent]
  slots := m.routes.map fun route => selectionSlot indent route.1 (d.targetAt? id route.2)
  depth := indent + 1

/-- The layout of a node. -/
def layout (options : Options) (n : Node) (indent : UInt32) : Layout :=
  if n.muted && !n.isStart then passingLayout [] (d.bypass? n) indent
  else match n.kind with
    | .start => passingLayout [] (d.firstTarget? n.id) indent
    | .action actions =>
      passingLayout (actions.flatMap (Action.commands indent)) (d.firstTarget? n.id) indent
    | .condition condition => d.conditionLayout n.id condition indent
    | .menu m =>
      if m.isDynamic then d.dynamicMenuLayout options n.id m indent
      else d.staticMenuLayout n.id m indent
    | .finish | .group | .comment => { depth := indent }

/-! ### Plans are layouts spelled out -/

variable {d}

lemma tasks_block (indent : UInt32) (opening : Command) (target : Option String)
    (closing : List Command) :
    (Slot.block indent opening target closing).tasks (indent + 1) =
      .emit opening :: blockBody target indent ++ closing.map .emit := by
  simp [Slot.block, Slot.tasks, blockBody]

lemma tasks_passingLayout (head : List Command) (target : Option String) (indent : UInt32) :
    (passingLayout head target indent).tasks = head.map .emit ++ visitAny target indent := by
  simp [passingLayout, Layout.tasks, Slot.tasks]

lemma conditionPlan_eq (id : String) (condition : Condition) (indent : UInt32) :
    (Index.ofDocument d).conditionPlan id condition indent =
      (d.conditionLayout id condition indent).tasks := by
  simp [Index.conditionPlan, Layout.tasks, conditionLayout, tasks_block]

lemma flatten_choices (id : String) (indent : UInt32) (i : Nat) (choices : List Choice) :
    (choices.mapIdx fun j c => Task.emit (.choiceBranch indent (i + j) c.text) ::
        blockBody (d.targetAt? id (choiceHandle (i + j))) indent).flatten =
      (d.choiceSlots id indent i choices).flatMap (Slot.tasks (indent + 1)) := by
  induction choices generalizing i with
  | nil => rfl
  | cons c cs ih =>
    have ih' := ih (i + 1)
    simp only [Nat.add_assoc, Nat.add_comm 1] at ih'
    simp only [List.mapIdx_cons, List.flatten_cons, choiceSlots, List.flatMap_cons, tasks_block,
      ih', Nat.add_zero]
    simp

lemma staticMenuPlan_eq (id : String) (m : Menu) (indent : UInt32) :
    (m.promptCommands indent).map .emit ++ (Index.ofDocument d).staticMenuPlan id m indent =
      (d.staticMenuLayout id m indent).tasks := by
  have hchoices := flatten_choices (d := d) id indent 0 m.choices
  simp only [Nat.zero_add] at hchoices
  simp only [Index.staticMenuPlan, Index.targetAt?_ofDocument, hchoices, Layout.tasks,
    staticMenuLayout, Menu.window, cancelSlots]
  cases m.cancel <;> simp [tasks_block]

lemma mapIdx_eq_map_range {α β : Type} (g : Nat → β) (xs : List α) :
    xs.mapIdx (fun i _ => g i) = (List.range xs.length).map g := by
  apply List.ext_getElem <;> simp

lemma dynamicMenuPlan_eq (options : Options) (id : String) (m : Menu) (indent : UInt32) :
    (m.promptCommands indent).map .emit ++
        (Index.ofDocument d).dynamicMenuPlan options id m indent =
      (d.dynamicMenuLayout options id m indent).tasks := by
  have hslot : ∀ (selection : Int64) (target : Option String),
      Index.selectionPlan selection target indent =
        (selectionSlot indent selection target).tasks (indent + 1) := by
    intro selection target
    simp [Index.selectionPlan, selectionSlot, tasks_block]
  simp only [Index.dynamicMenuPlan, Index.targetAt?_ofDocument, hslot, Layout.tasks,
    dynamicMenuLayout, Menu.emptyWindow, Menu.routes, mapIdx_eq_map_range]
  cases m.cancel <;> simp [List.flatMap, Function.comp_def]

lemma menuPlan_eq (options : Options) (id : String) (m : Menu) (indent : UInt32) :
    (Index.ofDocument d).menuPlan options id m indent =
      (m.promptCommands indent).map .emit ++
        if m.isDynamic then (Index.ofDocument d).dynamicMenuPlan options id m indent
        else (Index.ofDocument d).staticMenuPlan id m indent := by
  rw [Index.menuPlan, Menu.promptCommands]
  cases m.prompt <;> rfl

/-- The plan of a node is its layout spelled out. -/
theorem nodePlan_eq (options : Options) (n : Node) (indent : UInt32) :
    (Index.ofDocument d).nodePlan options n indent = (d.layout options n indent).tasks := by
  rw [Index.nodePlan, layout]
  split
  · rw [tasks_passingLayout, Index.bypass?_ofDocument]
    rfl
  · unfold Index.kindPlan
    cases hkind : n.kind with
    | start => simp [tasks_passingLayout]
    | action actions => simp [tasks_passingLayout]
    | condition condition => exact conditionPlan_eq n.id condition indent
    | menu m =>
      dsimp only
      rw [menuPlan_eq]
      split
      · exact dynamicMenuPlan_eq options n.id m indent
      · exact staticMenuPlan_eq n.id m indent
    | finish => rfl
    | group => rfl
    | comment => rfl

lemma map_target_choiceSlots (id : String) (indent : UInt32) (i : Nat) (choices : List Choice) :
    (d.choiceSlots id indent i choices).map Slot.target =
      (List.range' i choices.length).map fun j => d.targetAt? id (choiceHandle j) := by
  induction choices generalizing i with
  | nil => rfl
  | cons c cs ih => simp [choiceSlots, Slot.block, List.range'_succ, ih]

lemma length_choiceSlots (id : String) (indent : UInt32) (i : Nat) (choices : List Choice) :
    (d.choiceSlots id indent i choices).length = choices.length := by
  simpa using congrArg List.length (map_target_choiceSlots id indent i choices)

lemma cancelSlots_branch {m : Menu} (h : m.cancel = .branch) (id : String) (indent : UInt32) :
    d.cancelSlots id m indent =
      [.block indent (.choiceCancel indent) (d.targetAt? id cancelHandle)] := by
  rw [cancelSlots, h]

lemma cancelSlots_of_ne {m : Menu} (h : m.cancel ≠ .branch) (id : String) (indent : UInt32) :
    d.cancelSlots id m indent = [] := by
  rw [cancelSlots]
  split
  · contradiction
  · rfl
  · rfl

/-- What fills the slots of a menu with fixed choices: first the choices, then cancelling. -/
lemma exists_append_of_staticMenu {α : Type} {id : String} {m : Menu} {indent : UInt32}
    {bodies : List α} (h : bodies.length = (d.staticMenuLayout id m indent).slots.length) :
    ∃ taken cancelled, bodies = taken ++ cancelled ∧ taken.length = m.choices.length ∧
      cancelled.length = (d.cancelSlots id m indent).length := by
  simp only [staticMenuLayout, List.length_append, length_choiceSlots] at h
  refine ⟨_, _, (List.take_append_drop m.choices.length bodies).symm, ?_, ?_⟩
  · rw [List.length_take]
    omega
  · rw [List.length_drop]
    omega

/-- The outlets of a node are visited at its own depth, or one level deeper if it opens blocks. -/
lemma depth_layout (options : Options) (n : Node) (indent : UInt32) :
    (d.layout options n indent).depth = indent ∨
      n.opensBlocks ∧ (d.layout options n indent).depth = indent + 1 := by
  rw [layout]
  split
  · exact .inl rfl
  · rename_i hmuted
    cases hkind : n.kind with
    | condition condition =>
      exact .inr ⟨by simpa [Node.opensBlocks, Node.isStart, hkind] using hmuted, rfl⟩
    | menu m =>
      refine .inr ⟨by simpa [Node.opensBlocks, Node.isStart, hkind] using hmuted, ?_⟩
      dsimp only
      split <;> rfl
    | start | action | finish | group | comment => exact .inl rfl

/-- There is one slot for each outlet. -/
theorem map_target_slots (options : Options) (n : Node) (indent : UInt32) :
    (d.layout options n indent).slots.map Slot.target = d.outlets n := by
  rw [layout, outlets]
  split
  · rfl
  · cases n.kind with
    | start => rfl
    | action actions => rfl
    | condition condition => rfl
    | menu m =>
      dsimp only
      split
      · simp [dynamicMenuLayout, selectionSlot, Slot.block]
      · simp only [staticMenuLayout, List.map_append, map_target_choiceSlots, Menu.routes,
          cancelSlots, List.range_eq_range']
        cases m.cancel <;> simp [Slot.block]
    | finish => rfl
    | group => rfl
    | comment => rfl

end Document

/-! ### The commands of layouts -/

/-- Whether a command does something to the game and goes on at the next one. -/
def Opcode.isPlain : Opcode → Bool
  | showText | textLine | commonEvent | controlSwitches | controlVariables | script | scriptLine
  | pluginCommand => true
  | stop | showChoices | choiceBranch | choiceCancel | choiceBlockEnd | conditionalBranch
  | conditionalElse | conditionalEnd | label | jumpToLabel => false

/-- Whether a command opens, divides or closes a block. -/
def Opcode.isBracket : Opcode → Bool
  | showChoices | choiceBranch | choiceCancel | choiceBlockEnd | conditionalBranch
  | conditionalElse | conditionalEnd => true
  | stop | showText | textLine | commonEvent | controlSwitches | controlVariables | script
  | scriptLine | pluginCommand | label | jumpToLabel => false

/-- A slot inside a block that is opened at depth `indent`. -/
def Slot.IsBlock (indent : UInt32) (s : Slot) : Prop :=
  ∃ opening target closing, s = .block indent opening target closing ∧
    opening.opcode.isBracket ∧ ∀ c ∈ closing, c.opcode.isBracket

/-- A command at depth `indent` that does something to the game. -/
structure Command.IsPlainAt (indent : UInt32) (c : Command) : Prop where
  isPlain : c.opcode.isPlain
  indent_eq : c.indent = indent

section Plain

variable {indent : UInt32} {c : Command}

lemma Message.isPlainAt_of_mem_commands {message : Message} (h : c ∈ message.commands indent) :
    c.IsPlainAt indent := by
  rcases List.mem_cons.1 h with rfl | h
  · exact ⟨rfl, rfl⟩
  · split at h
    · obtain rfl := List.mem_singleton.1 h
      exact ⟨rfl, rfl⟩
    · obtain ⟨_, -, rfl⟩ := List.mem_map.1 h
      exact ⟨rfl, rfl⟩

lemma Command.isPlainAt_of_mem_script {code : String} (h : c ∈ Command.script indent code) :
    c.IsPlainAt indent := by
  unfold Command.script at h
  split at h
  · obtain rfl := List.mem_singleton.1 h
    exact ⟨rfl, rfl⟩
  · rcases List.mem_cons.1 h with rfl | h
    · exact ⟨rfl, rfl⟩
    · obtain ⟨_, -, rfl⟩ := List.mem_map.1 h
      exact ⟨rfl, rfl⟩

lemma Action.isPlainAt_of_mem_commands {a : Action} (h : c ∈ a.commands indent) :
    c.IsPlainAt indent := by
  cases a with
  | script code => exact Command.isPlainAt_of_mem_script h
  | showText message => exact Message.isPlainAt_of_mem_commands h
  | setVariable | setSwitch | commonEvent | pluginCommand =>
    obtain rfl := List.mem_singleton.1 h
    exact ⟨rfl, rfl⟩

lemma Menu.isPlainAt_of_mem_promptCommands {m : Menu} (h : c ∈ m.promptCommands indent) :
    c.IsPlainAt indent := by
  unfold promptCommands at h
  split at h
  · exact Message.isPlainAt_of_mem_commands h
  · cases h

end Plain

namespace Document

variable {d : Document} {options : Options} {n : Node} {indent : UInt32} {c : Command}

/-- What the commands of a layout with blocks are. -/
lemma mem_own_of_isBlock {l : Layout} (hhead : ∀ c ∈ l.head, c.opcode.isPlain ∨ c.opcode.isBracket)
    (hslots : ∀ s ∈ l.slots, s.IsBlock indent) (hlast : ∀ c ∈ l.last, c.opcode.isBracket)
    (hdepth : l.depth = indent + 1) (h : c ∈ l.own) :
    c.opcode.isPlain ∨ c.opcode.isBracket ∨ c = .stop (indent + 1) ∧ l.depth = indent + 1 := by
  rcases List.mem_append.1 h with h | h
  · rcases List.mem_append.1 h with h | h
    · exact (hhead c h).imp_right .inl
    · obtain ⟨s, hs, h⟩ := List.mem_flatMap.1 h
      obtain ⟨opening, target, closing, rfl, hopening, hclosing⟩ := hslots s hs
      simp only [Slot.block, List.singleton_append, List.mem_cons] at h
      rcases h with rfl | rfl | h
      · exact .inr (.inl hopening)
      · exact .inr (.inr ⟨rfl, hdepth⟩)
      · exact .inr (.inl (hclosing c h))
  · exact .inr (.inl (hlast c h))

lemma isBlock_choiceSlots {id : String} {i : Nat} {choices : List Choice} {s : Slot}
    (h : s ∈ d.choiceSlots id indent i choices) : s.IsBlock indent := by
  induction choices generalizing i with
  | nil => cases h
  | cons choice choices ih =>
    rcases List.mem_cons.1 h with rfl | h
    · exact ⟨_, _, [], rfl, rfl, nofun⟩
    · exact ih h

lemma isBlock_cancelSlots {id : String} {m : Menu} {s : Slot} (h : s ∈ d.cancelSlots id m indent) :
    s.IsBlock indent := by
  unfold cancelSlots at h
  split at h
  · obtain rfl := List.mem_singleton.1 h
    exact ⟨_, _, [], rfl, rfl, nofun⟩
  · cases h
  · cases h

/-- What the commands of a layout are: what the node does, and the brackets of its blocks, which
end one level deeper. -/
theorem mem_own (h : c ∈ (d.layout options n indent).own) :
    c.opcode.isPlain ∨ c.opcode.isBracket ∨
      c = .stop (indent + 1) ∧ (d.layout options n indent).depth = indent + 1 := by
  rw [layout] at h ⊢
  split at h
  · cases h
  · rename_i hmuted
    rw [if_neg hmuted]
    cases hkind : n.kind with
    | action actions =>
      rw [hkind] at h
      obtain ⟨a, -, h⟩ : ∃ a ∈ actions, c ∈ a.commands indent := by
        simpa [Layout.own, passingLayout] using h
      exact .inl (Action.isPlainAt_of_mem_commands h).isPlain
    | condition condition =>
      rw [hkind] at h
      refine mem_own_of_isBlock nofun ?_ (by simp [conditionLayout, Command.conditionalEnd,
        Opcode.isBracket]) rfl h
      intro s hs
      simp only [conditionLayout, List.mem_cons, List.not_mem_nil, or_false] at hs
      rcases hs with rfl | rfl <;> exact ⟨_, _, [], rfl, rfl, nofun⟩
    | menu m =>
      rw [hkind] at h
      dsimp only at h ⊢
      split at h
      · rename_i hdynamic
        rw [if_pos hdynamic]
        refine mem_own_of_isBlock ?_ ?_ nofun rfl h
        · intro c hc
          simp only [dynamicMenuLayout, List.mem_append, List.mem_singleton] at hc
          rcases hc with (hc | hc) | rfl
          · exact .inl (Menu.isPlainAt_of_mem_promptCommands hc).isPlain
          · exact .inl (Command.isPlainAt_of_mem_script hc).isPlain
          · exact .inr rfl
        · intro s hs
          obtain ⟨route, -, rfl⟩ := List.mem_map.1 hs
          exact ⟨_, _, [.conditionalEnd indent], rfl, rfl, by simp [Command.conditionalEnd,
            Opcode.isBracket]⟩
      · rename_i hstatic
        rw [if_neg hstatic]
        refine mem_own_of_isBlock ?_ ?_ (by simp [staticMenuLayout, Command.choiceBlockEnd,
          Opcode.isBracket]) rfl h
        · intro c hc
          simp only [staticMenuLayout, List.mem_append, List.mem_singleton] at hc
          rcases hc with hc | rfl
          · exact .inl (Menu.isPlainAt_of_mem_promptCommands hc).isPlain
          · exact .inr rfl
        · intro s hs
          rcases List.mem_append.1 hs with hs | hs
          · exact isBlock_choiceSlots hs
          · exact isBlock_cancelSlots hs
    | start | finish | group | comment => rw [hkind] at h; cases h

lemma opcode_ne_label (h : c ∈ (d.layout options n indent).own) : c.opcode ≠ .label := by
  intro hlabel
  rcases mem_own h with h | h | ⟨rfl, -⟩
  · rw [hlabel] at h
    cases h
  · rw [hlabel] at h
    cases h
  · cases hlabel

/-- A block of a layout ends one level deeper. -/
lemma eq_stop (h : c ∈ (d.layout options n indent).own) (hstop : c.opcode = .stop) :
    c = .stop (indent + 1) ∧ (d.layout options n indent).depth = indent + 1 := by
  rcases mem_own h with h | h | h
  · rw [hstop] at h
    cases h
  · rw [hstop] at h
    cases h
  · exact h

end Document

end Dialogue
