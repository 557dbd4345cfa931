import Dialogue.Compile.ChoiceScript
import Dialogue.Compile.Lowering
import Dialogue.Graph.Index
/-!
Plans: what is to be emitted at a node.

A plan is a list of tasks.  A task either emits a command or visits another node, whose own plan
then takes its place.  Blocks are plans too: the commands that open, divide and close a block stand
around the visits that fill it.
-/

namespace Dialogue

/-- One thing to do. -/
inductive Task
  /-- Emit what node `id` stands for, at a depth. -/
  | visit (id : String) (indent : UInt32)
  /-- Emit a command. -/
  | emit (command : Command)
deriving DecidableEq

/-- Visit a node, if there is one. -/
def visitAny (target : Option String) (indent : UInt32) : List Task :=
  target.toList.map (.visit · indent)

/-- The inside of a block that is opened at depth `indent`: a visit, and the end of the block. -/
def blockBody (target : Option String) (indent : UInt32) : List Task :=
  visitAny target (indent + 1) ++ [.emit (.stop (indent + 1))]

namespace Index

variable (index : Index)

/-- The plan of a condition: one block for each outcome. -/
def conditionPlan (id : String) (condition : Condition) (indent : UInt32) : List Task :=
  [.emit (.conditionalBranch indent condition.expression)] ++
    blockBody (index.targetAt? id trueHandle) indent ++
    [.emit (.conditionalElse indent)] ++
    blockBody (index.targetAt? id falseHandle) indent ++
    [.emit (.conditionalEnd indent)]

/-- The plan of a menu whose choices are always the same: the engine's own blocks. -/
def staticMenuPlan (id : String) (menu : Menu) (indent : UInt32) : List Task :=
  let window := Command.showChoices indent (menu.choices.map Choice.text)
    (menu.cancel.code menu.choices.length) 0 menu.position menu.background
  let choice (i : Nat) (c : Choice) : List Task :=
    .emit (.choiceBranch indent i c.text) :: blockBody (index.targetAt? id (choiceHandle i)) indent
  let cancel := match menu.cancel with
    | .branch => .emit (.choiceCancel indent) :: blockBody (index.targetAt? id cancelHandle) indent
    | .disallow | .lastChoice => []
  .emit window :: (menu.choices.mapIdx choice).flatten ++ cancel ++ [.emit (.choiceBlockEnd indent)]

/-- The block that runs if the player took the choice `selection`. -/
def selectionPlan (selection : Int64) (target : Option String) (indent : UInt32) : List Task :=
  [.emit (.conditionalBranch indent (selectionCondition selection).expression)] ++
    blockBody target indent ++ [.emit (.conditionalEnd indent)]

/-- The plan of a menu whose choices depend on the state of the game.  A script fills the window, so
the command that opens it has no choices of its own, and one conditional for each choice follows. -/
def dynamicMenuPlan (options : Options) (id : String) (menu : Menu) (indent : UInt32) : List Task :=
  let setUp := Command.script indent (menu.script options.disabledMark)
  let window := Command.showChoices indent [] (menu.cancel.code 0) 0 menu.position menu.background
  let choice (i : Nat) (_ : Choice) : List Task :=
    selectionPlan (Int64.ofNat i) (index.targetAt? id (choiceHandle i)) indent
  let cancel := match menu.cancel with
    | .branch => selectionPlan cancelledChoice (index.targetAt? id cancelHandle) indent
    | .disallow | .lastChoice => []
  setUp.map .emit ++ [.emit window] ++ (menu.choices.mapIdx choice).flatten ++ cancel

/-- The plan of a menu: what is said before it, then the menu itself. -/
def menuPlan (options : Options) (id : String) (menu : Menu) (indent : UInt32) : List Task :=
  let prompt := match menu.prompt with
    | some message => (message.commands indent).map Task.emit
    | none => []
  prompt ++
    if menu.isDynamic then index.dynamicMenuPlan options id menu indent
    else index.staticMenuPlan id menu indent

/-- Where the dialogue goes on if a node is muted. -/
def bypass? (node : Node) : Option String :=
  match node.kind with
  | .condition _ => (index.targetAt? node.id trueHandle).or (index.firstTarget? node.id)
  | .menu _ => (index.targetAt? node.id (choiceHandle 0)).or (index.firstTarget? node.id)
  | .action _ | .finish => index.firstTarget? node.id
  | .start | .group | .comment => none

/-- The plan of a node that is not muted. -/
def kindPlan (options : Options) (id : String) (kind : NodeKind) (indent : UInt32) : List Task :=
  match kind with
  | .start => visitAny (index.firstTarget? id) indent
  | .action actions =>
    (actions.flatMap (Action.commands indent)).map Task.emit ++
      visitAny (index.firstTarget? id) indent
  | .condition condition => index.conditionPlan id condition indent
  | .menu menu => index.menuPlan options id menu indent
  | .finish | .group | .comment => []

/-- The plan of a node.  A node at which the dialogue begins is never passed over. -/
def nodePlan (options : Options) (node : Node) (indent : UInt32) : List Task :=
  if node.muted && !node.isStart then visitAny (index.bypass? node) indent
  else index.kindPlan options node.id node.kind indent

end Index

end Dialogue
