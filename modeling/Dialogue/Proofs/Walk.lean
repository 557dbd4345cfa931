import Dialogue.Proofs.Engine
/-!
Walks: what a dialogue graph means.

A walk goes from node to node along the edges of a document.  It begins behind the first node at
which the dialogue begins, does what each node says, and goes on at the outlet that fits; a node
that is muted is passed over in silence.  It ends where there is no next node, and at nodes from
which nothing leads on.  An answer that does not fit the question takes the walk nowhere.

Nothing here refers to commands in an order: the commands of actions and prompts appear only as
what is performed.
-/

namespace Dialogue

/-- The events of commands that are carried out one after the other.  Depths cannot be seen. -/
def performed (cs : List Command) : List Event :=
  cs.map fun c => .performed c.opcode c.parameters

@[simp] lemma performed_append (cs cs' : List Command) :
    performed (cs ++ cs') = performed cs ++ performed cs' :=
  List.map_append

lemma performed_map_flat (cs : List Command) : performed (cs.map Command.flat) = performed cs := by
  simp [performed, Command.flat, Function.comp_def]

lemma performed_promptCommands (m : Menu) (indent : UInt32) :
    performed (m.promptCommands indent) = performed (m.promptCommands 0) := by
  rw [← performed_map_flat, m.map_flat_promptCommands]

lemma performed_script (indent : UInt32) (code : String) :
    performed (Command.script indent code) = performed (Command.script 0 code) := by
  rw [← performed_map_flat, Command.map_flat_script]

lemma performed_actions (actions : List Action) (indent : UInt32) :
    performed (actions.flatMap (Action.commands indent)) =
      performed (actions.flatMap (Action.commands 0)) := by
  rw [← performed_map_flat, List.map_flatMap]
  exact congrArg performed (List.flatMap_congr fun a _ => a.map_flat_commands indent)

/-- Someone who walks through a dialogue graph. -/
structure Walker where
  /-- The node that was left last. -/
  last : Option String
  /-- Where the next node is. -/
  target : Option String
  /-- The value of the variable that holds the player's choice. -/
  choice : Int64
  /-- The answers that are still to be given. -/
  answers : Stream' Answer

namespace Walker

variable (d : Document) (options : Options) (test? : Int64 → String → Option Bool) (w : Walker)

/-- Leaves a node. -/
def leave (n : Node) (target : Option String) : Walker :=
  { w with last := some n.id, target }

/-- Takes an answer. -/
def answered : Walker :=
  { w with answers := w.answers.tail }

/-- Goes nowhere. -/
def nowhere : Walker :=
  { w with last := none, target := none }

/-- Leaves a condition. -/
def leaveCondition (n : Node) (holds : Bool) : Walker :=
  w.leave n (d.targetAt? n.id (if holds then trueHandle else falseHandle))

/-- Comes to a condition. -/
def branch (n : Node) (condition : Condition) : List Event × Walker :=
  match test? w.choice condition.expression with
  | some holds => ([], w.leaveCondition d n holds)
  | none => ([.evaluated condition.expression],
      match w.answers.head with
      | .truth holds => w.answered.leaveCondition d n holds
      | .choice _ | .cancel | .nothing => w.nowhere)

/-- Comes to a menu with fixed choices. -/
def choose (n : Node) (m : Menu) : List Event × Walker :=
  (performed (m.promptCommands 0) ++ [.window (m.window 0).parameters],
    match m.route? w.answers.head with
    | some route => w.answered.leave n (d.targetAt? n.id route.2)
    | none =>
      if w.answers.head = .nothing ∧ m.choices = [] then w.answered.leave n none else w.nowhere)

/-- What is seen of a menu whose choices a script sets up, before the player takes one. -/
def selectEvents (m : Menu) : List Event :=
  performed (m.promptCommands 0 ++ Command.script 0 (m.script options.disabledMark)) ++
    [.window (m.emptyWindow 0).parameters]

/-- Comes to a menu whose choices a script sets up. -/
def select (n : Node) (m : Menu) : List Event × Walker :=
  match m.route? w.answers.head with
  | some route =>
    (selectEvents options m ++ [.shown n.id route.1, .entered n.id route.1],
      { w.answered.leave n (d.targetAt? n.id route.2) with choice := route.1 })
  | none => (selectEvents options m, w.nowhere)

/-- Comes to a node that is not passed over. -/
def visit (n : Node) : Option (List Event × Walker) :=
  match n.kind with
  | .start => some ([], w.leave n (d.firstTarget? n.id))
  | .action actions =>
    some (performed (actions.flatMap (Action.commands 0)), w.leave n (d.firstTarget? n.id))
  | .condition condition => some (w.branch d test? n condition)
  | .menu m => some (if m.isDynamic then w.select d options n m else w.choose d n m)
  | .finish | .group | .comment => none

/-- Comes to a node. -/
def come (n : Node) : Option (List Event × Walker) :=
  if n.muted && !n.isStart then some ([], w.leave n (d.bypass? n)) else w.visit d options test? n

/-- One step: the walk comes to the next node. -/
def step : Option (List Event × Walker) :=
  (d.nodeAt? w.target).bind (w.come d options test?)

end Walker

end Dialogue
