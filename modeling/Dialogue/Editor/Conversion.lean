import Dialogue.Editor.Format
import Dialogue.Editor.Lenient
import Dialogue.Graph.Document
/-!
From the editor's documents to dialogue graphs.

The tags of nodes, actions and conditions are looked up without regard to case, hyphens and
underscores.  Of the content of a node only the part that belongs to its kind is looked at.  An
unknown tag refuses the whole document; with several of them the first one in the order of the
document is reported.
-/

namespace Dialogue.Editor

/-- Why a document could not be loaded. -/
inductive LoadError
  /-- The text is not a document. -/
  | badText (fault : Json.Fault)
  /-- The tag of a node is unknown. -/
  | unknownNode (node tag : String)
  /-- The tag of an action is unknown. -/
  | unknownAction (node tag : String)
  /-- The tag of a condition is unknown. -/
  | unknownCondition (node tag : String)
deriving DecidableEq

/-- What a person is told about an error. -/
def LoadError.message : LoadError → String
  | badText fault => "Failed to parse graph JSON: " ++ fault.message
  | unknownNode node tag => "Node '" ++ node ++ "' has an unknown node type: '" ++ tag ++ "'"
  | unknownAction node tag =>
    "Node '" ++ node ++ "' contains an action of unknown type: '" ++ tag ++ "'"
  | unknownCondition node tag =>
    "Node '" ++ node ++ "' contains a condition of unknown type: '" ++ tag ++ "'"

/-- The lower-case form of a character, as far as it is a letter of ASCII: besides the capitals of
ASCII only the Kelvin sign has one.  No other character can be part of a tag that is known. -/
def lowerTagChar (c : Char) : Char :=
  if c == '\u212A' then 'k' else c.toLower

/-- A tag without regard to case, hyphens and underscores. -/
def normalTag (tag : String) : String :=
  String.ofList ((tag.toList.filter fun c => c != '_' && c != '-').map lowerTagChar)

/-- A message, with defaults for what is left out. -/
def Message.convert (m : Message) : Dialogue.Message where
  faceName := m.faceName.getD ""
  faceIndex := m.faceIndex.getD 0
  background := m.background.getD 0
  position := m.position.getD 2
  text := m.text.getD ""

/-- The arguments of a plugin's command, as texts. -/
def argumentText : Json → String
  | .str s => s
  | j => j.compact

/-- An action of a node. -/
def Action.convert (node : String) (a : Action) : Except LoadError Dialogue.Action :=
  match normalTag a.tag with
  | "script" => .ok (.script (a.script.getD ""))
  | "setvariable" =>
    .ok (.setVariable (a.variableId.getD 0) ((a.operation.map VariableOperation.parse).getD .set)
      (lenientInt a.value))
  | "setswitch" => .ok (.setSwitch (a.switchId.getD 0) (lenientBool a.value))
  | "commonevent" => .ok (.commonEvent (a.eventId.getD 0))
  | "showtext" => .ok (.showText a.message.convert)
  | "plugincommand" =>
    .ok (.pluginCommand (a.pluginName.getD "") (a.commandName.getD "")
      (.ofList ((a.args.getD []).map fun kv => (kv.1, argumentText kv.2))))
  | _ => .error (.unknownAction node a.tag)

/-- A condition of a node. -/
def Condition.convert (node : String) (c : Condition) : Except LoadError Dialogue.Condition :=
  match normalTag c.tag with
  | "switch" => .ok (.switch (c.switchId.getD 0) (lenientBool c.value))
  | "variable" =>
    .ok (.compare (c.variableId.getD 0) ((c.operator.map Comparison.parse).getD .equal)
      (lenientInt c.value))
  | "script" => .ok (.script c.expression)
  | _ => .error (.unknownCondition node c.tag)

/-- A condition that may be left out. -/
def convertCondition? (node : String) :
    Option Condition → Except LoadError (Option Dialogue.Condition)
  | none => .ok none
  | some c => some <$> c.convert node

/-- The choice at `index` of the menu of a node.  A choice without a name gets one. -/
def Choice.convert (node : String) (index : Nat) (c : Choice) :
    Except LoadError Dialogue.Choice := do
  let hide ← convertCondition? node c.hide
  let disable ← convertCondition? node c.disable
  return {
    id := if c.id = "" then node ++ "-choice-" ++ toString index else c.id
    text := c.text
    hide
    disable }

/-- The choices of the menu of a node, from the one at `index` on. -/
def convertChoices (node : String) : (index : Nat) → List Choice →
    Except LoadError (List Dialogue.Choice)
  | _, [] => .ok []
  | index, c :: cs => do
    let choice ← c.convert node index
    let choices ← convertChoices node (index + 1) cs
    return choice :: choices

/-- How a menu is cancelled. -/
def cancelModeOf (tag : Option String) : CancelMode :=
  match tag.map normalTag with
  | some "branch" => .branch
  | some "lastchoice" | some "last" => .lastChoice
  | _ => .disallow

/-- The menu of a node.  A prompt without a text is none. -/
def NodeData.menu (node : String) (d : NodeData) : Except LoadError Menu := do
  let choices ← convertChoices node 0 d.choices
  return {
    prompt := (d.prompt.filter (·.text.isSome)).map Message.convert
    choices
    cancel := cancelModeOf d.cancelType
    position := d.windowPosition.getD 2
    background := d.windowBackground.getD 0 }

/-- What a node is for. -/
def Node.kind (n : Node) : Except LoadError NodeKind :=
  match normalTag n.tag with
  | "start" => .ok .start
  | "end" => .ok .finish
  | "group" => .ok .group
  | "comment" => .ok .comment
  | "action" => .action <$> n.data.actions.mapM (Action.convert n.id)
  | "condition" =>
    match n.data.condition with
    | some c => .condition <$> c.convert n.id
    | none => .ok (.condition .always)
  | "menu" => .menu <$> n.data.menu n.id
  | _ => .error (.unknownNode n.id n.tag)

/-- A node. -/
def Node.convert (n : Node) : Except LoadError Dialogue.Node := do
  return { id := n.id, label := n.data.label.getD "", muted := n.data.muted, kind := ← n.kind }

/-- The edge at `index`.  An edge without a name gets one, and an outlet without a name is none. -/
def Edge.convert (index : Nat) (e : Edge) : Dialogue.Edge where
  id := if e.id = "" then "edge-" ++ toString index else e.id
  source := e.source
  target := e.target
  handle := e.handle.filter (· != "")

/-- The dialogue graph of a document. -/
def Document.convert (d : Document) : Except LoadError Dialogue.Document := do
  return { nodes := ← d.nodes.mapM Node.convert, edges := d.edges.mapIdx Edge.convert }

end Dialogue.Editor

namespace Dialogue

/-- Loads a dialogue graph from the text that the editor saved. -/
def Document.load (s : String) : Except Editor.LoadError Document :=
  match Editor.Document.parse s with
  | .ok d => d.convert
  | .error fault => .error (.badText fault)

end Dialogue
